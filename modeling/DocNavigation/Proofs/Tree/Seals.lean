import DocNavigation.Proofs.Component
import DocNavigation.Proofs.Tree.Places

/-!
Seals and insertions. An insertion asks for the seal of the node that it starts from and for no
other, so that from an open node it does what it would do in the open copy.
-/

namespace DocNavigation.Tree

theorem withSealAll_eq_map (sealing : Bool) (ts : List Tree) :
    withSealAll sealing ts = ts.map (withSeal sealing) := by
  induction ts with
  | nil => rfl
  | cons t ts ih => rw [withSealAll, List.map_cons, ih]

theorem copy_node (n : String) (sealing : Bool) (ds : List Tree) (fs : List String) :
    (node n sealing ds fs).copy = .node n false (ds.map copy) fs :=
  congrArg (node n false · fs) (withSealAll_eq_map false ds)

theorem child?_withSeal (sealing : Bool) (t : Tree) (s : String) :
    (t.withSeal sealing).child? s = (t.child? s).map (withSeal sealing) := by
  cases t with
  | node n b ds fs =>
    change (withSealAll sealing ds).find? (·.name = s) = (ds.find? (·.name = s)).map _
    rw [withSealAll_eq_map, List.find?_map]
    simp only [Function.comp_def, withSeal_name]

theorem at?_withSeal (sealing : Bool) (path : List String) (t : Tree) :
    (t.withSeal sealing).at? path = (t.at? path).map (withSeal sealing) := by
  induction path generalizing t with
  | nil => rfl
  | cons s rest ih =>
    rw [at?_cons, at?_cons, child?_withSeal]
    cases t.child? s with
    | none => rfl
    | some c => exact ih c

theorem files_withSeal (sealing : Bool) (t : Tree) : (t.withSeal sealing).files = t.files := by
  cases t with
  | node n s ds fs => rfl

theorem withDirs_copy (t : Tree) (ds : List Tree) :
    (t.withDirs ds).copy = t.copy.withDirs (ds.map copy) := by
  cases t with
  | node n s es fs =>
    change Tree.node n false (withSealAll false ds) fs = .node n false (ds.map copy) fs
    rw [withSealAll_eq_map]
    rfl

theorem dirs_copy (t : Tree) : t.copy.dirs = t.dirs.map copy := by
  cases t with
  | node n s ds fs => exact withSealAll_eq_map false ds

theorem blockingFile?_copy (path : List String) (t : Tree) :
    t.copy.blockingFile? path = t.blockingFile? path := by
  induction path generalizing t with
  | nil => rfl
  | cons s rest ih =>
    rw [blockingFile?, blockingFile?, copy, files_withSeal, child?_withSeal]
    cases t.child? s with
    | none => rfl
    | some c =>
      have hrest : (c.withSeal false).blockingFile? rest = c.blockingFile? rest := ih c
      simp only [Option.map_some, hrest]

section
variable (f : Tree → Tree) (hf : ∀ t, (f t).copy = f t.copy)

include hf in
theorem map_copy_updateNamed (segment : String) (ts : List Tree) :
    (updateNamed segment f ts).map copy = updateNamed segment f (ts.map copy) := by
  induction ts with
  | nil =>
    rw [updateNamed, List.map_singleton, hf]
    rfl
  | cons t ts ih =>
    have hname : t.copy.name = t.name := withSeal_name false t
    rw [List.map_cons, updateNamed, updateNamed, hname]
    split
    · rw [List.map_cons, hf]
    · rw [List.map_cons, ih]

include hf in
theorem grow_copy (path : List String) (t : Tree) : (grow f path t).copy = grow f path t.copy := by
  induction path generalizing t with
  | nil => exact hf t
  | cons s rest ih => rw [grow, grow, withDirs_copy, map_copy_updateNamed _ ih, dirs_copy]

end

theorem addFile_dirs (leaf : String) (t : Tree) : (addFile leaf t).dirs = t.dirs := by
  rw [addFile]
  split <;> rfl

theorem addFile_copy (leaf : String) (t : Tree) : (addFile leaf t).copy = addFile leaf t.copy := by
  have hfiles : t.copy.files = t.files := files_withSeal false t
  rw [addFile, addFile, hfiles]
  split
  · rfl
  · cases t
    rfl

theorem insertFile_sealed (t : Tree) (path : List String) (h : t.isSealed = true) :
    t.insertFile path = .error .isSealed := by
  rw [insertFile, if_pos h]

theorem insertDirectory_sealed (t : Tree) (path : List String) (h : t.isSealed = true) :
    t.insertDirectory path = .error .isSealed := by
  rw [insertDirectory, if_pos h]

theorem insertFile_ok (t u : Tree) (path : List String) (h : t.insertFile path = .ok u) :
    t.isSealed = false ∧ u = grow (addFile (path.getLastD "")) path.dropLast t := by
  rw [insertFile] at h
  split at h
  case isTrue => cases h
  case isFalse hopen =>
    split at h
    case h_1 => cases h
    case h_2 =>
      split at h
      · cases h
      · cases h
        exact ⟨eq_false_of_ne_true hopen, rfl⟩

theorem insertDirectory_ok (t u : Tree) (path : List String) (h : t.insertDirectory path = .ok u) :
    t.isSealed = false ∧ u = grow id path t := by
  rw [insertDirectory] at h
  split at h
  case isTrue => cases h
  case isFalse hopen =>
    split at h
    case h_1 => cases h
    case h_2 =>
      cases h
      exact ⟨eq_false_of_ne_true hopen, rfl⟩

theorem isSealed_copy (t : Tree) : t.copy.isSealed = false := by
  cases t
  rfl

/-- From an open node an insertion goes on as though nothing below were sealed. -/
theorem insertFile_copy (t : Tree) (path : List String) (h : t.isSealed = false) :
    (t.insertFile path).map copy = t.copy.insertFile path := by
  have hat : (t.copy.at? path).isSome = (t.at? path).isSome := by
    rw [copy, at?_withSeal, Option.isSome_map]
  rw [insertFile, insertFile, isSealed_copy, h, blockingFile?_copy, hat]
  simp only [Bool.false_eq_true, if_false]
  cases t.blockingFile? path.dropLast with
  | some p => rfl
  | none =>
    cases (t.at? path).isSome with
    | true => rfl
    | false => exact congrArg Except.ok (grow_copy _ (addFile_copy _) _ t)

theorem insertDirectory_copy (t : Tree) (path : List String) (h : t.isSealed = false) :
    (t.insertDirectory path).map copy = t.copy.insertDirectory path := by
  rw [insertDirectory, insertDirectory, isSealed_copy, h, blockingFile?_copy]
  simp only [Bool.false_eq_true, if_false]
  cases t.blockingFile? path with
  | some p => rfl
  | none => exact congrArg Except.ok (grow_copy id (fun _ => rfl) path t)

end DocNavigation.Tree
