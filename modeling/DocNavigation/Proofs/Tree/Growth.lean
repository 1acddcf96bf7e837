import DocNavigation.Proofs.Tree.Seals

/-!
Insertion told by the entries of a tree. What grows along a path leaves every directory where it
was and adds those on the way; a file goes in exactly where no file stands on the way and no
directory at its place. Directories are created before the last segment is looked at, but a refused
insertion has created none.
-/

namespace DocNavigation.Tree

/-- The node that growing along a path comes to: the one that is there, or the empty directory that
is created. -/
def reach : List String → Tree → Tree
  | [], t => t
  | s :: rest, t => reach rest (slot s t.dirs)

theorem mem_files_reach (path : List String) (t : Tree) (leaf : String) :
    leaf ∈ (reach path t).files ↔ ∃ x, t.at? path = some x ∧ leaf ∈ x.files := by
  induction path generalizing t with
  | nil => simp [reach, at?]
  | cons s rest ih =>
    rw [reach, ih, at?_cons]
    cases hc : t.child? s with
    | some c => rw [slot_of_child? t c s hc, Option.bind_some]
    | none =>
      have hslot : slot s t.dirs = empty s := by
        rw [child?] at hc
        rw [slot, hc]
        rfl
      rw [hslot]
      cases rest <;> simp [at?, child?, empty, files, dirs]

section
variable (f : Tree → Tree) (hname : ∀ t, (f t).name = t.name)

include hname in
theorem at?_grow_append (q rest : List String) (t : Tree) :
    (grow f (q ++ rest) t).at? q = some (grow f rest (reach q t)) := by
  induction q generalizing t with
  | nil => rfl
  | cons s q ih =>
    have hnew : (grow f (q ++ rest) (slot s t.dirs)).name = s := by
      rw [grow_name f hname, slot_name]
    rw [List.cons_append, grow, at?_cons, child?_updateNamed t s s _ hnew, if_pos rfl,
      Option.bind_some, ih, reach]

variable (hdirs : ∀ t, (f t).dirs = t.dirs)

include hname hdirs in
/-- After growing, exactly the directories on the way have been added. -/
theorem at?_grow_isSome_iff (path q : List String) (t : Tree) :
    ((grow f path t).at? q).isSome = true ↔ q <+: path ∨ (t.at? q).isSome = true := by
  by_cases hq : q <+: path
  · obtain ⟨rest, rfl⟩ := hq
    rw [at?_grow_append f hname q rest t]
    simp
  · rw [at?_grow f hname hdirs path q t hq]
    simp [hq]

end

section
variable (f g : Tree → Tree) (hg : ∀ t, (g t).name = t.name)

include hg in
theorem updateNamed_updateNamed (s : String) (ts : List Tree) :
    updateNamed s f (updateNamed s g ts) = updateNamed s (f ∘ g) ts := by
  induction ts with
  | nil =>
    have hnew : (g (empty s)).name = s := hg (empty s)
    simp [updateNamed, hnew]
  | cons t ts ih =>
    by_cases ht : t.name = s
    · simp [updateNamed, ht, hg]
    · simp [updateNamed, ht, ih]

include hg in
/-- Growing a path twice is growing it once with both changes at its end. -/
theorem grow_grow (path : List String) (t : Tree) :
    grow f path (grow g path t) = grow (f ∘ g) path t := by
  induction path generalizing t with
  | nil => rfl
  | cons s rest ih =>
    have hboth : grow f rest ∘ grow g rest = grow (f ∘ g) rest := funext ih
    calc grow f (s :: rest) (grow g (s :: rest) t)
        = t.withDirs (updateNamed s (grow f rest) (updateNamed s (grow g rest) t.dirs)) := rfl
      _ = t.withDirs (updateNamed s (grow (f ∘ g) rest) t.dirs) := by
        rw [updateNamed_updateNamed _ _ (grow_name g hg rest), hboth]

end

/-- Insertion in the order of its steps, with what is left of the tree: the directories are created
first, and then the last segment is looked at in the directory at the end. -/
def insertFileStepwise (t : Tree) (path : List String) : Tree × Except TreeError Unit :=
  if t.isSealed then (t, .error .isSealed)
  else match t.blockingFile? path.dropLast with
    | some p => (t, .error (.conflict p .file))
    | none =>
      let made := grow id path.dropLast t
      if (made.at? path).isSome then (made, .error (.conflict path .directory))
      else (grow (addFile (path.getLastD "")) path.dropLast made, .ok ())

theorem not_prefix_snoc (way : List String) (leaf : String) : ¬ way ++ [leaf] <+: way := by
  intro h
  have hlength := h.length_le
  rw [List.length_append, List.length_singleton] at hlength
  omega

theorem not_prefix_dropLast (path : List String) (hne : path ≠ []) : ¬ path <+: path.dropLast := by
  have hsnoc := not_prefix_snoc path.dropLast (path.getLast hne)
  rw [List.dropLast_concat_getLast hne] at hsnoc
  exact hsnoc

/-- A refused insertion leaves the tree as it was: a directory at the place of the file was there
before, and so were all on the way to it. -/
theorem insertFileStepwise_eq (t : Tree) (path : List String) (hne : path ≠ []) :
    t.insertFileStepwise path = match t.insertFile path with
      | .ok u => (u, .ok ())
      | .error e => (t, .error e) := by
  rw [insertFileStepwise, insertFile]
  by_cases hsealed : t.isSealed = true
  · rw [if_pos hsealed, if_pos hsealed]
  rw [if_neg hsealed, if_neg hsealed]
  cases t.blockingFile? path.dropLast with
  | some p => rfl
  | none =>
    -- the directories end above the place that is looked at
    have hmade : (grow id path.dropLast t).at? path = t.at? path :=
      at?_grow id (fun _ => rfl) (fun _ => rfl) _ _ t (not_prefix_dropLast path hne)
    simp only [hmade]
    cases hat : t.at? path with
    | none =>
      simp only [Option.isSome_none, Bool.false_eq_true, if_false,
        grow_grow (addFile (path.getLastD "")) id (fun _ => rfl), Function.comp_id]
    | some x =>
      -- nothing had to be created where something stands at the end of the path
      have hway : ∃ y, t.at? path.dropLast = some y := by
        rw [← List.dropLast_concat_getLast hne, at?_append] at hat
        obtain ⟨y, hy, -⟩ := Option.bind_eq_some_iff.mp hat
        exact ⟨y, hy⟩
      obtain ⟨y, hy⟩ := hway
      simp only [Option.isSome_some, if_true, grow_id_of_at? path.dropLast t y hy]

theorem hasFile_snoc (t : Tree) (q : List String) (leaf : String) :
    t.hasFile (q ++ [leaf]) = true ↔ ∃ x, t.at? q = some x ∧ leaf ∈ x.files := by
  rw [hasFile, List.getLast?_concat, List.dropLast_concat]
  cases t.at? q <;> simp

theorem hasFile_singleton (t : Tree) (l : String) : t.hasFile [l] = true ↔ l ∈ t.files := by
  simpa [at?] using hasFile_snoc t [] l

theorem hasFile_cons (t : Tree) (s : String) (q : List String) (l : String) :
    t.hasFile (s :: q ++ [l]) = true ↔ ∃ c, t.child? s = some c ∧ c.hasFile (q ++ [l]) = true := by
  rw [hasFile_snoc, at?_cons]
  cases t.child? s with
  | none => simp
  | some c => simp [hasFile_snoc]

/-- No file stands on the way. -/
theorem blockingFile?_eq_none_iff (path : List String) (t : Tree) :
    t.blockingFile? path = none ↔ ∀ q leaf, q ++ [leaf] <+: path → t.hasFile (q ++ [leaf]) = false := by
  induction path generalizing t with
  | nil => simp [blockingFile?]
  | cons s rest ih =>
    rw [blockingFile?]
    constructor
    · intro h q leaf hq
      split at h
      case isTrue => cases h
      case isFalse hfile =>
        rw [List.contains_iff_mem, ← hasFile_singleton] at hfile
        rw [← Bool.not_eq_true]
        cases q with
        | nil =>
          obtain ⟨rfl, -⟩ := List.cons_prefix_cons.mp hq
          exact hfile
        | cons r q =>
          obtain ⟨rfl, hrest⟩ := List.cons_prefix_cons.mp hq
          rw [hasFile_cons]
          rintro ⟨c, hc, hbelow⟩
          simp only [hc, Option.map_eq_none_iff] at h
          rw [(ih c).mp h q leaf hrest] at hbelow
          cases hbelow
    · intro h
      have hfree : t.hasFile [s] = false := h [] s (List.cons_prefix_cons.mpr ⟨rfl, List.nil_prefix⟩)
      have hfile : ¬ t.files.contains s = true := by
        rw [List.contains_iff_mem, ← hasFile_singleton, hfree]
        simp
      rw [if_neg hfile]
      cases hc : t.child? s with
      | none => rfl
      | some c =>
        simp only [Option.map_eq_none_iff]
        refine (ih c).mpr fun q leaf hq => ?_
        have hway := h (s :: q) leaf (List.cons_prefix_cons.mpr ⟨rfl, hq⟩)
        rw [← Bool.not_eq_true] at hway ⊢
        exact fun hbelow => hway ((hasFile_cons t s q leaf).mpr ⟨c, hc, hbelow⟩)

theorem insertFile_eq_ok_iff (t u : Tree) (way : List String) (leaf : String) :
    t.insertFile (way ++ [leaf]) = .ok u ↔ t.isSealed = false ∧
      (∀ q l, q ++ [l] <+: way → t.hasFile (q ++ [l]) = false) ∧ t.at? (way ++ [leaf]) = none ∧
      u = grow (addFile leaf) way t := by
  rw [← blockingFile?_eq_none_iff, insertFile, List.dropLast_concat, List.getLastD_concat]
  cases t.isSealed with
  | true => simp
  | false =>
    cases t.blockingFile? way with
    | some p => simp
    | none => cases t.at? (way ++ [leaf]) <;> simp [eq_comm]

theorem mem_files_addFile (leaf l : String) (t : Tree) :
    l ∈ (addFile leaf t).files ↔ l ∈ t.files ∨ l = leaf := by
  rw [addFile]
  split
  case isTrue h =>
    rw [List.contains_iff_mem] at h
    constructor
    · exact .inl
    · rintro (hl | rfl)
      · exact hl
      · exact h
  case isFalse => simp [withFiles, files]

/-- A file that went in is the only one that was added. -/
theorem hasFile_grow_iff (way q : List String) (leaf l : String) (t : Tree) :
    (grow (addFile leaf) way t).hasFile (q ++ [l]) = true ↔
      t.hasFile (q ++ [l]) = true ∨ q ++ [l] = way ++ [leaf] := by
  rw [hasFile_snoc, hasFile_snoc, List.append_eq_append_iff_of_size_eq_right (by simp)]
  by_cases hq : q <+: way
  · -- a node on the way: the file is new there only if the way ends there
    obtain ⟨rest, rfl⟩ := hq
    rw [at?_grow_append _ (addFile_name leaf), ← mem_files_reach]
    cases rest with
    | nil => simp [grow, mem_files_addFile]
    | cons r rest => simp [grow, withDirs, files]
  · have hne : q ≠ way := fun h => hq (h ▸ List.prefix_refl way)
    rw [at?_grow _ (addFile_name leaf) (addFile_dirs leaf) way q t hq]
    simp [hne]

end DocNavigation.Tree
