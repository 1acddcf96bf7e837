import DocNavigation.Proofs.Result
import DocNavigation.Tree.Grove

/-!
Well-formed trees. In every node the names of directories and files are segments and are distinct;
the root may have any name. Insertions, copies and seals keep a tree well-formed.
-/

namespace DocNavigation

theorem Name.isSegment_iff (s : String) : Name.isSegment s = true ↔
    s ≠ "" ∧ s ≠ "." ∧ s ≠ ".." ∧ '/' ∉ s.toList ∧ '\\' ∉ s.toList := by
  simp [Name.isSegment, and_assoc]

theorem Name.isSegment_of_check (role : String) (v : Json) (s : String)
    (h : Name.check role v = .ok s) : v = .str s ∧ Name.isSegment s = true := by
  unfold Name.check at h
  split at h
  case h_1 =>
    split at h
    case isTrue hs => cases h; exact ⟨rfl, hs⟩
    case isFalse => cases h
  case h_2 => cases h

theorem Name.check_str (role s : String) (h : Name.isSegment s = true) :
    Name.check role (.str s) = .ok s := by
  simp [Name.check, h]

theorem Name.segments_of_checkPath (items : List Json) (path : List String)
    (h : Name.checkPath items = .ok path) :
    path ≠ [] ∧ ∀ s ∈ path, Name.isSegment s = true := by
  rw [Name.checkPath] at h
  split at h
  case isTrue => cases h
  case isFalse hne =>
    have hall := (Result.mapM_eq_ok_iff _ _ _).mp h
    refine ⟨?_, ?_⟩
    · rintro rfl
      cases hall
      exact hne rfl
    · intro s hs
      obtain ⟨v, -, hv⟩ := Result.exists_left_of_mem hall s hs
      exact (Name.isSegment_of_check _ _ _ hv).2

namespace Tree

structure Orderly (dirs : List Tree) (files : List String) : Prop where
  distinct : (dirs.map name ++ files).Nodup
  dirNames : ∀ d ∈ dirs, Name.isSegment d.name = true
  fileNames : ∀ f ∈ files, Name.isSegment f = true

mutual

def WellFormed : Tree → Prop
  | .node _ _ ds fs => Orderly ds fs ∧ WellFormedAll ds

def WellFormedAll : List Tree → Prop
  | [] => True
  | t :: ts => WellFormed t ∧ WellFormedAll ts

end

theorem wellFormedAll_iff (ts : List Tree) : WellFormedAll ts ↔ ∀ t ∈ ts, t.WellFormed := by
  induction ts with
  | nil => simp [WellFormedAll]
  | cons t ts ih => simp [WellFormedAll, ih]

theorem wellFormed_iff (t : Tree) :
    t.WellFormed ↔ Orderly t.dirs t.files ∧ ∀ d ∈ t.dirs, d.WellFormed := by
  cases t with
  | node n s ds fs => simp [WellFormed, wellFormedAll_iff, dirs, files]

theorem wellFormed_empty (n : String) : (empty n).WellFormed :=
  ⟨⟨List.nodup_nil, by simp, by simp⟩, trivial⟩

theorem child?_wellFormed (t : Tree) (s : String) (c : Tree) (ht : t.WellFormed)
    (hc : t.child? s = some c) : c.WellFormed ∧ c.name = s := by
  have hmem := List.mem_of_find?_eq_some hc
  have hname := List.find?_some hc
  exact ⟨((wellFormed_iff t).mp ht).2 c hmem, of_decide_eq_true hname⟩

theorem at?_wellFormed (path : List String) (t u : Tree) (ht : t.WellFormed)
    (hu : t.at? path = some u) : u.WellFormed := by
  induction path generalizing t with
  | nil =>
    cases hu
    exact ht
  | cons s rest ih =>
    rw [at?] at hu
    split at hu
    case h_1 => cases hu
    case h_2 c hc => exact ih c (child?_wellFormed t s c ht hc).1 hu

theorem at?_append (p q : List String) (t : Tree) :
    t.at? (p ++ q) = (t.at? p).bind (·.at? q) := by
  induction p generalizing t with
  | nil => rfl
  | cons s p ih =>
    rw [List.cons_append, at?, at?]
    cases t.child? s with
    | none => rfl
    | some c => exact ih c

section
variable (segment : String) (f : Tree → Tree)

theorem map_name_updateNamed (hf : ∀ u, u.name = segment → (f u).name = segment)
    (ts : List Tree) : (updateNamed segment f ts).map name =
      if segment ∈ ts.map name then ts.map name else ts.map name ++ [segment] := by
  induction ts with
  | nil => simp [updateNamed, hf (empty segment) rfl]
  | cons t ts ih =>
    by_cases ht : t.name = segment
    · simp [updateNamed, ht, hf t ht]
    · simp only [updateNamed, if_neg ht, List.map_cons, ih, List.mem_cons, Ne.symm ht, false_or]
      split <;> rfl

theorem mem_updateNamed (ts : List Tree) (u : Tree) (hu : u ∈ updateNamed segment f ts) :
    u ∈ ts ∨ (∃ c, ts.find? (·.name = segment) = some c ∧ u = f c) ∨
      (ts.find? (·.name = segment) = none ∧ u = f (empty segment)) := by
  induction ts with
  | nil => exact .inr (.inr ⟨rfl, List.mem_singleton.mp hu⟩)
  | cons t ts ih =>
    rw [updateNamed] at hu
    split at hu
    case isTrue ht =>
      rcases List.mem_cons.mp hu with hu | hu
      · exact .inr (.inl ⟨t, by simp [ht], hu⟩)
      · exact .inl (List.mem_cons_of_mem _ hu)
    case isFalse ht =>
      have hskip : (t :: ts).find? (·.name = segment) = ts.find? (·.name = segment) := by
        simp [ht]
      rw [hskip]
      rcases List.mem_cons.mp hu with hu | hu
      · exact .inl (hu ▸ List.mem_cons_self ..)
      · exact (ih hu).imp (List.mem_cons_of_mem _) id

theorem child?_eq_none_iff (t : Tree) : t.child? segment = none ↔ segment ∉ t.dirs.map name := by
  simp [child?]

/-- Changing or adding one directory leaves a node well-formed if the changed one is. -/
theorem withDirs_updateNamed_wellFormed (t : Tree) (ht : t.WellFormed)
    (hsegment : Name.isSegment segment = true) (hfile : t.child? segment = none → segment ∉ t.files)
    (hname : ∀ u, u.name = segment → (f u).name = segment)
    (hold : ∀ c, t.child? segment = some c → (f c).WellFormed)
    (hnew : t.child? segment = none → (f (empty segment)).WellFormed) :
    (t.withDirs (updateNamed segment f t.dirs)).WellFormed := by
  obtain ⟨horder, hdirs⟩ := (wellFormed_iff t).mp ht
  have hnames := map_name_updateNamed segment f hname t.dirs
  refine (wellFormed_iff _).mpr ⟨⟨?_, ?_, horder.fileNames⟩, ?_⟩
  · change ((updateNamed segment f t.dirs).map name ++ t.files).Nodup
    rw [hnames]
    split
    case isTrue => exact horder.distinct
    case isFalse hnone =>
      -- the new name stands between the directories and the files, where order does not matter
      have hperm : (t.dirs.map name ++ [segment] ++ t.files).Perm
          (segment :: (t.dirs.map name ++ t.files)) := by
        rw [List.append_assoc]
        exact List.perm_middle
      rw [hperm.nodup_iff, List.nodup_cons, List.mem_append, not_or]
      exact ⟨⟨hnone, hfile ((child?_eq_none_iff segment t).mpr hnone)⟩, horder.distinct⟩
  · intro d hd
    rcases mem_updateNamed segment f t.dirs d hd with hd | ⟨c, hc, rfl⟩ | ⟨-, rfl⟩
    · exact horder.dirNames d hd
    · rw [hname c (child?_wellFormed t segment c ht hc).2]
      exact hsegment
    · rw [hname (empty segment) rfl]
      exact hsegment
  · intro d hd
    rcases mem_updateNamed segment f t.dirs d hd with hd | ⟨c, hc, rfl⟩ | ⟨hnone, rfl⟩
    · exact hdirs d hd
    · exact hold c hc
    · exact hnew hnone

end

theorem withSeal_name (sealing : Bool) (t : Tree) : (t.withSeal sealing).name = t.name := by
  cases t with
  | node n s ds fs => rfl

theorem map_name_withSealAll (sealing : Bool) (ts : List Tree) :
    (withSealAll sealing ts).map name = ts.map name := by
  induction ts with
  | nil => rfl
  | cons t ts ih => rw [withSealAll, List.map_cons, List.map_cons, ih, withSeal_name]

theorem grow_name (f : Tree → Tree) (hname : ∀ u, (f u).name = u.name) (path : List String)
    (t : Tree) : (grow f path t).name = t.name := by
  cases path with
  | nil => exact hname t
  | cons s rest => rfl

theorem blockingFile?_empty (n : String) (path : List String) :
    (empty n).blockingFile? path = none := by
  cases path with
  | nil => rfl
  | cons s rest => rfl

/-- Creating the missing levels of an unblocked path keeps a tree well-formed, whatever is done at
the end of the path. -/
theorem grow_wellFormed (f : Tree → Tree) (hname : ∀ u, (f u).name = u.name)
    (hnew : ∀ n, (f (empty n)).WellFormed) (path : List String) (t : Tree) (ht : t.WellFormed)
    (hpath : ∀ s ∈ path, Name.isSegment s = true) (hblock : t.blockingFile? path = none)
    (hend : ∀ u, t.at? path = some u → u.WellFormed → (f u).WellFormed) :
    (grow f path t).WellFormed := by
  induction path generalizing t with
  | nil => exact hend t rfl ht
  | cons s rest ih =>
    rw [blockingFile?] at hblock
    split at hblock
    case isTrue => cases hblock
    case isFalse hfile =>
      have hrest := fun r hr => hpath r (List.mem_cons_of_mem _ hr)
      refine withDirs_updateNamed_wellFormed s _ t ht (hpath s (List.mem_cons_self ..)) ?_ ?_ ?_ ?_
      · intro _ hmem
        exact hfile (List.contains_iff_mem.mpr hmem)
      · intro u hu
        rw [grow_name f hname, hu]
      · intro c hc
        refine ih c (child?_wellFormed t s c ht hc).1 hrest ?_ ?_
        · simpa [hc] using hblock
        · intro u hu
          exact hend u (by rw [at?, hc]; exact hu)
      · -- below a level that is missing all levels are missing
        intro _
        refine ih (empty s) (wellFormed_empty s) hrest (blockingFile?_empty s rest) ?_
        intro u hu _
        cases rest with
        | nil =>
          cases hu
          exact hnew s
        | cons r rest => cases hu

theorem addFile_wellFormed (leaf : String) (t : Tree) (ht : t.WellFormed)
    (hleaf : Name.isSegment leaf = true) (hdir : t.child? leaf = none) :
    (addFile leaf t).WellFormed := by
  rw [addFile]
  split
  case isTrue => exact ht
  case isFalse hnew =>
    obtain ⟨horder, hdirs⟩ := (wellFormed_iff t).mp ht
    rw [List.contains_iff_mem] at hnew
    refine (wellFormed_iff _).mpr ⟨⟨?_, horder.dirNames, ?_⟩, hdirs⟩
    · change (t.dirs.map name ++ (t.files ++ [leaf])).Nodup
      rw [← List.append_assoc, List.nodup_append]
      refine ⟨horder.distinct, by simp, ?_⟩
      rintro a ha b hb rfl
      rw [List.mem_singleton.mp hb, List.mem_append] at ha
      exact ha.elim ((child?_eq_none_iff leaf t).mp hdir) hnew
    · intro g hg
      rcases List.mem_append.mp hg with hg | hg
      · exact horder.fileNames g hg
      · rw [List.mem_singleton.mp hg]
        exact hleaf

theorem addFile_name (leaf : String) (t : Tree) : (addFile leaf t).name = t.name := by
  rw [addFile]
  split <;> rfl

theorem segmentsOf_segments (v : Json) (path : List String) (h : segmentsOf v = .ok path) :
    path ≠ [] ∧ ∀ s ∈ path, Name.isSegment s = true := by
  unfold segmentsOf at h
  split at h
  case h_4 => cases h
  all_goals exact Name.segments_of_checkPath _ _ ((Result.mapError_eq_ok_iff _ _ _).mp h)

theorem insertFile_wellFormed (t u : Tree) (path : List String) (ht : t.WellFormed)
    (hne : path ≠ []) (hpath : ∀ s ∈ path, Name.isSegment s = true)
    (h : t.insertFile path = .ok u) : u.WellFormed ∧ u.name = t.name := by
  have hsplit : path = path.dropLast ++ [path.getLast hne] :=
    (List.dropLast_concat_getLast hne).symm
  have hlast : path.getLastD "" = path.getLast hne := by
    rw [List.getLastD_eq_getLast?, List.getLast?_eq_some_getLast hne, Option.getD_some]
  rw [insertFile] at h
  split at h
  case isTrue => cases h
  case isFalse =>
    split at h
    case h_1 => cases h
    case h_2 hblock =>
      split at h
      case isTrue => cases h
      case isFalse hdir =>
        cases h
        rw [hlast]
        refine ⟨?_, grow_name _ (addFile_name _) _ _⟩
        have hleaf := hpath _ (List.getLast_mem hne)
        refine grow_wellFormed _ (addFile_name _) ?_ _ t ht ?_ hblock ?_
        · intro n
          exact addFile_wellFormed _ _ (wellFormed_empty n) hleaf rfl
        · intro s hs
          exact hpath s ((List.dropLast_sublist path).subset hs)
        · intro v hv hvt
          refine addFile_wellFormed _ v hvt hleaf ?_
          rw [hsplit, at?_append, hv, Option.bind_some, at?] at hdir
          cases hc : v.child? (path.getLast hne) with
          | none => rfl
          | some c =>
            rw [hc] at hdir
            exact absurd rfl hdir

theorem insertDirectory_wellFormed (t u : Tree) (path : List String) (ht : t.WellFormed)
    (hpath : ∀ s ∈ path, Name.isSegment s = true) (h : t.insertDirectory path = .ok u) :
    u.WellFormed ∧ u.name = t.name := by
  rw [insertDirectory] at h
  split at h
  case isTrue => cases h
  case isFalse =>
    split at h
    case h_1 => cases h
    case h_2 hblock =>
      cases h
      exact ⟨grow_wellFormed id (fun _ => rfl) wellFormed_empty path t ht hpath hblock
        (fun _ _ h => h), grow_name id (fun _ => rfl) path t⟩

mutual

theorem withSeal_wellFormed (sealing : Bool) : (t : Tree) → t.WellFormed →
    (t.withSeal sealing).WellFormed
  | .node _ _ ds _, h => by
    have hnames := map_name_withSealAll sealing ds
    have hall := withSealAll_wellFormed sealing ds h.2
    refine ⟨⟨?_, ?_, h.1.fileNames⟩, hall⟩
    · rw [hnames]
      exact h.1.distinct
    · rw [← List.forall_mem_map (P := fun n => Name.isSegment n = true), hnames, List.forall_mem_map]
      exact h.1.dirNames

theorem withSealAll_wellFormed (sealing : Bool) : (ts : List Tree) → WellFormedAll ts →
    WellFormedAll (withSealAll sealing ts)
  | [], _ => trivial
  | t :: ts, h => ⟨withSeal_wellFormed sealing t h.1, withSealAll_wellFormed sealing ts h.2⟩

end

end Tree

end DocNavigation
