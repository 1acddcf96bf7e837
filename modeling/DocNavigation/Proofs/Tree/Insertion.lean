import DocNavigation.Proofs.Tree.Queries

/-!
Insertion told by what a tree lists. A path is refused exactly for the shortest file on its way, or
for a directory where a file is to go, and a refusal changes nothing. What succeeds adds the path
and the directories on its way behind what is there, and has nothing left to do when it comes again.
-/

namespace DocNavigation.Tree

/-- The shortest file of the tree among the leading parts of a way. -/
structure Blocks (t : Tree) (way p : List String) : Prop where
  leads : p <+: way
  file : p ∈ t.filePaths []
  shortest : ∀ q ∈ t.filePaths [], q <+: way → p.length ≤ q.length

theorem Blocks.unique (t : Tree) (way p q : List String) (hp : Blocks t way p)
    (hq : Blocks t way q) : p = q := by
  have hlength : p.length = q.length :=
    Nat.le_antisymm (hp.shortest q hq.file hq.leads) (hq.shortest p hp.file hp.leads)
  exact (List.prefix_of_prefix_length_le hp.leads hq.leads (Nat.le_of_eq hlength)).eq_of_length hlength

theorem blocks_of_blockingFile? (way p : List String) (t : Tree) (ht : t.WellFormed)
    (h : t.blockingFile? way = some p) : Blocks t way p := by
  induction way generalizing t p with
  | nil => cases h
  | cons s rest ih =>
    have hfull : ∀ q ∈ t.filePaths [], q ≠ [] := fun q hq => (filePaths_valid t ht q hq).1
    rw [blockingFile?] at h
    split at h
    case isTrue hs =>
      cases h
      refine ⟨List.cons_prefix_cons.mpr ⟨rfl, List.nil_prefix⟩, ?_, fun q hq _ => ?_⟩
      · rw [mem_filePaths_iff_hasFile t ht, hasFile_singleton]
        exact List.contains_iff_mem.mp hs
      · exact List.length_pos_iff.mpr (hfull q hq)
    case isFalse hs =>
      cases hc : t.child? s with
      | none =>
        rw [hc] at h
        cases h
      | some c =>
        rw [hc] at h
        obtain ⟨r, hr, rfl⟩ := Option.map_eq_some_iff.mp h
        have hcwell := (child?_wellFormed t s c ht hc).1
        have hblocks := ih r c hcwell hr
        have hbelow : ∀ q, q ≠ [] → (s :: q ∈ t.filePaths [] ↔ q ∈ c.filePaths []) := by
          intro q hq
          obtain ⟨way, leaf, rfl⟩ := exists_leaf q hq
          rw [mem_filePaths_iff_hasFile t ht, mem_filePaths_iff_hasFile c hcwell,
            ← List.cons_append, hasFile_cons, hc]
          simp
        refine ⟨List.cons_prefix_cons.mpr ⟨rfl, hblocks.leads⟩, ?_, fun q hq hlead => ?_⟩
        · exact (hbelow r (filePaths_valid c hcwell r hblocks.file).1).mpr hblocks.file
        · obtain ⟨a, q, rfl⟩ := List.exists_cons_of_ne_nil (hfull q hq)
          obtain ⟨rfl, hrest⟩ := List.cons_prefix_cons.mp hlead
          have hq' : q ≠ [] := by
            rintro rfl
            rw [mem_filePaths_iff_hasFile t ht, hasFile_singleton] at hq
            exact hs (List.contains_iff_mem.mpr hq)
          exact Nat.succ_le_succ (hblocks.shortest q ((hbelow q hq').mp hq) hrest)

theorem blockingFile?_eq_some_iff (t : Tree) (ht : t.WellFormed) (way p : List String) :
    t.blockingFile? way = some p ↔ Blocks t way p := by
  refine ⟨blocks_of_blockingFile? way p t ht, fun h => ?_⟩
  cases hfound : t.blockingFile? way with
  | some q => rw [(blocks_of_blockingFile? way q t ht hfound).unique t way q p h]
  | none =>
    obtain ⟨q, leaf, rfl⟩ := exists_leaf p (filePaths_valid t ht p h.file).1
    have hfree := (blockingFile?_eq_none_iff way t).mp hfound q leaf h.leads
    rw [(mem_filePaths_iff_hasFile t ht _).mp h.file] at hfree
    cases hfree

theorem reach_of_at? (path : List String) (t x : Tree) (h : t.at? path = some x) :
    reach path t = x := by
  induction path generalizing t with
  | nil => exact Option.some.inj h
  | cons s rest ih =>
    obtain ⟨c, hc, hrest⟩ := (at?_cons_eq_some_iff t x s rest).mp h
    rw [reach, slot_of_child? t c s hc]
    exact ih c hrest

section
variable (f : Tree → Tree) (hname : ∀ t, (f t).name = t.name) (hdirs : ∀ t, (f t).dirs = t.dirs)
include hname hdirs

/-- Growing adds files and directories behind those that a node has. -/
theorem grow_keeps_order (hfiles : ∀ t, t.files <+: (f t).files) (path q : List String)
    (t x : Tree) (hx : t.at? q = some x) : ∃ y, (grow f path t).at? q = some y ∧
      x.files <+: y.files ∧ x.dirs.map name <+: y.dirs.map name := by
  by_cases hq : q <+: path
  · obtain ⟨rest, rfl⟩ := hq
    refine ⟨grow f rest x, ?_, ?_⟩
    · rw [at?_grow_append f hname q rest t, reach_of_at? q t x hx]
    · cases rest with
      | nil =>
        refine ⟨hfiles x, ?_⟩
        have hsame : (grow f [] x).dirs = x.dirs := hdirs x
        exact hsame ▸ List.prefix_rfl
      | cons s rest =>
        have hnew : ∀ u : Tree, u.name = s → (grow f rest u).name = s := by
          intro u hu
          rw [grow_name f hname, hu]
        refine ⟨List.prefix_rfl, ?_⟩
        change x.dirs.map name <+: (updateNamed s (grow f rest) x.dirs).map name
        rw [map_name_updateNamed s _ hnew]
        split
        · exact List.prefix_rfl
        · exact List.prefix_append _ _
  · exact ⟨x, (at?_grow f hname hdirs path q t hq).trans hx, List.prefix_rfl, List.prefix_rfl⟩

/-- The directories that growing adds are those on the way. -/
theorem mem_dirPaths_grow_iff (path : List String) (t : Tree) (ht : t.WellFormed)
    (hgrown : (grow f path t).WellFormed) (q : List String) :
    q ∈ (grow f path t).dirPaths [] ↔ q ∈ t.dirPaths [] ∨ q ≠ [] ∧ q <+: path := by
  rw [mem_dirPaths_iff _ hgrown, mem_dirPaths_iff t ht, at?_grow_isSome_iff f hname hdirs]
  tauto

end

theorem files_prefix_addFile (leaf : String) (t : Tree) : t.files <+: (addFile leaf t).files := by
  rw [addFile]
  split
  · exact List.prefix_rfl
  · exact List.prefix_append t.files [leaf]

theorem addFile_addFile (leaf : String) (t : Tree) :
    addFile leaf (addFile leaf t) = addFile leaf t := by
  have hmem := (mem_files_addFile leaf leaf t).mpr (.inr rfl)
  rw [addFile, if_pos (List.contains_iff_mem.mpr hmem)]

theorem hasFile_grow_id (path q : List String) (leaf : String) (t : Tree) :
    (grow id path t).hasFile (q ++ [leaf]) = true ↔ t.hasFile (q ++ [leaf]) = true := by
  rw [hasFile_snoc, hasFile_snoc]
  by_cases hq : q <+: path
  · obtain ⟨rest, rfl⟩ := hq
    rw [at?_grow_append id (fun _ => rfl), ← mem_files_reach]
    cases rest <;> simp [grow, withDirs, files]
  · rw [at?_grow id (fun _ => rfl) (fun _ => rfl) path q t hq]

/-- Insertion of a directory in the order of its steps, with what is left of the tree: the whole
path is looked at, and only then the missing levels are created. -/
def insertDirectoryStepwise (t : Tree) (path : List String) : Tree × Except TreeError Unit :=
  if t.isSealed then (t, .error .isSealed)
  else match t.blockingFile? path with
    | some p => (t, .error (.conflict p .file))
    | none => (grow id path t, .ok ())

theorem insertDirectoryStepwise_eq (t : Tree) (path : List String) :
    t.insertDirectoryStepwise path = match t.insertDirectory path with
      | .ok u => (u, .ok ())
      | .error e => (t, .error e) := by
  rw [insertDirectoryStepwise, insertDirectory]
  cases t.isSealed with
  | true => rfl
  | false => cases t.blockingFile? path <;> rfl

/-- The second tree lists the given files and directories beside those of the first one, and at
every place of the first one they stand behind what was there. -/
structure Extends (t u : Tree) (newFile newDir : List String → Prop) : Prop where
  files : ∀ p, p ∈ u.filePaths [] ↔ p ∈ t.filePaths [] ∨ newFile p
  dirs : ∀ p, p ∈ u.dirPaths [] ↔ p ∈ t.dirPaths [] ∨ newDir p
  order : ∀ q x, t.at? q = some x → ∃ y, u.at? q = some y ∧
    x.files <+: y.files ∧ x.dirs.map name <+: y.dirs.map name

/-- An insertion is refused on the given grounds and then leaves the tree as it was. Otherwise it
extends the tree, and the same insertion then changes nothing. -/
structure Inserts (insert : Tree → Except TreeError Tree)
    (stepwise : Tree → Tree × Except TreeError Unit) (t : Tree) (grounds : TreeError → Prop)
    (newFile newDir : List String → Prop) : Prop where
  refused : ∀ e, insert t = .error e ↔ grounds e
  kept : ∀ e, insert t = .error e → stepwise t = (t, .error e)
  grown : ∀ u, insert t = .ok u →
    stepwise t = (u, .ok ()) ∧ Extends t u newFile newDir ∧ insert u = .ok u

section
variable (t : Tree) (ht : t.WellFormed) (hopen : t.isSealed = false) (path : List String)
include ht hopen

theorem insertDirectory_eq_error_iff (e : TreeError) : t.insertDirectory path = .error e ↔
    ∃ p, Blocks t path p ∧ e = .conflict p .file := by
  simp only [← blockingFile?_eq_some_iff t ht]
  rw [insertDirectory, hopen]
  cases t.blockingFile? path <;> simp [eq_comm]

theorem insertFile_eq_error_iff (hne : path ≠ []) (e : TreeError) : t.insertFile path = .error e ↔
    (∃ p, Blocks t path.dropLast p ∧ e = .conflict p .file) ∨
      (¬ ∃ p, Blocks t path.dropLast p) ∧ path ∈ t.dirPaths [] ∧
        e = .conflict path .directory := by
  simp only [← blockingFile?_eq_some_iff t ht, mem_dirPaths_iff t ht]
  rw [insertFile, hopen]
  cases t.blockingFile? path.dropLast with
  | some p => simpa using eq_comm
  | none =>
    cases (t.at? path).isSome with
    | true => simpa [hne] using eq_comm
    | false => simp

end

theorem insertDirectory_again (t u : Tree) (path : List String)
    (h : t.insertDirectory path = .ok u) : u.insertDirectory path = .ok u := by
  obtain ⟨hopen, hblock, rfl⟩ := (insertDirectory_eq_ok_iff t u path).mp h
  refine (insertDirectory_eq_ok_iff _ _ path).mpr ⟨?_, ?_, ?_⟩
  · cases path <;> exact hopen
  · rw [blockingFile?_eq_none_iff] at hblock ⊢
    intro q leaf hq
    rw [← Bool.not_eq_true, hasFile_grow_id, hblock q leaf hq]
    simp
  · exact (grow_grow id id (fun _ => rfl) path t).symm

theorem insertFile_again (t u : Tree) (path : List String) (hne : path ≠ [])
    (h : t.insertFile path = .ok u) : u.insertFile path = .ok u := by
  obtain ⟨way, leaf, rfl⟩ := exists_leaf path hne
  obtain ⟨hopen, hfree, hplace, rfl⟩ := (insertFile_eq_ok_iff t u way leaf).mp h
  refine (insertFile_eq_ok_iff _ _ way leaf).mpr ⟨?_, fun q l hq => ?_, ?_, ?_⟩
  · cases way with
    | nil =>
      rw [grow, addFile]
      split <;> exact hopen
    | cons s way => exact hopen
  · -- the new file ends its way, so it does not stand on it
    have hother : q ++ [l] ≠ way ++ [leaf] := by
      intro heq
      rw [heq] at hq
      exact not_prefix_snoc way leaf hq
    rw [← Bool.not_eq_true, hasFile_grow_iff, hfree q l hq]
    simp [hother]
  · rw [at?_grow _ (addFile_name leaf) (addFile_dirs leaf) _ _ t (not_prefix_snoc way leaf)]
    exact hplace
  · have honce : addFile leaf ∘ addFile leaf = addFile leaf := funext (addFile_addFile leaf)
    rw [grow_grow _ _ (addFile_name leaf), honce]

/-- What grows along a path extends a tree by the directories on the way, and by the files that are
new at its end. -/
theorem grow_extends (f : Tree → Tree) (hname : ∀ t, (f t).name = t.name)
    (hdirs : ∀ t, (f t).dirs = t.dirs) (hfiles : ∀ t, t.files <+: (f t).files)
    (path : List String) (t : Tree) (ht : t.WellFormed) (hgrown : (grow f path t).WellFormed)
    (newFile : List String → Prop) (hempty : ¬ newFile [])
    (hnew : ∀ q l, (grow f path t).hasFile (q ++ [l]) = true ↔
      t.hasFile (q ++ [l]) = true ∨ newFile (q ++ [l])) :
    Extends t (grow f path t) newFile fun q => q ≠ [] ∧ q <+: path := by
  refine ⟨fun p => ?_, mem_dirPaths_grow_iff f hname hdirs path t ht hgrown,
    fun q x => grow_keeps_order f hname hdirs hfiles path q t x⟩
  rw [mem_filePaths_iff_hasFile _ hgrown, mem_filePaths_iff_hasFile t ht]
  by_cases hp : p = []
  · subst hp
    simp [hasFile, hempty]
  · obtain ⟨q, l, rfl⟩ := exists_leaf p hp
    exact hnew q l

theorem insertFile_extends (t u : Tree) (ht : t.WellFormed) (path : List String) (hne : path ≠ [])
    (hpath : ∀ s ∈ path, Name.isSegment s = true) (h : t.insertFile path = .ok u) :
    Extends t u (· = path) fun q => q ≠ [] ∧ q <+: path.dropLast := by
  have hu := (insertFile_wellFormed t u path ht hne hpath h).1
  obtain ⟨way, leaf, rfl⟩ := exists_leaf path hne
  obtain ⟨-, -, -, rfl⟩ := (insertFile_eq_ok_iff t u way leaf).mp h
  rw [List.dropLast_concat]
  exact grow_extends _ (addFile_name leaf) (addFile_dirs leaf) (files_prefix_addFile leaf) way t ht
    hu _ hne.symm fun q l => hasFile_grow_iff way q leaf l t

theorem insertDirectory_extends (t u : Tree) (ht : t.WellFormed) (path : List String)
    (hpath : ∀ s ∈ path, Name.isSegment s = true) (h : t.insertDirectory path = .ok u) :
    Extends t u (fun _ => False) fun q => q ≠ [] ∧ q <+: path := by
  have hu := (insertDirectory_wellFormed t u path ht hpath h).1
  obtain ⟨-, -, rfl⟩ := (insertDirectory_eq_ok_iff t u path).mp h
  refine grow_extends id (fun _ => rfl) (fun _ => rfl) (fun _ => List.prefix_rfl) path t ht hu _
    (fun h => h) fun q l => ?_
  rw [hasFile_grow_id, or_false]

/-- Insertion of a valid path into a well-formed open tree. A file is refused for the shortest file
on its way, or else for a directory in its place; a directory is refused for the shortest file on
its path, the path itself included. -/
theorem insertion_exact (t : Tree) (ht : t.WellFormed) (hopen : t.copy = t) (v : Json)
    (path : List String) (hv : segmentsOf v = .ok path) :
    Inserts (·.insertFile path) (·.insertFileStepwise path) t
      (fun e => (∃ p, Blocks t path.dropLast p ∧ e = .conflict p .file) ∨
        (¬ ∃ p, Blocks t path.dropLast p) ∧ path ∈ t.dirPaths [] ∧ e = .conflict path .directory)
      (· = path) (fun q => q ≠ [] ∧ q <+: path.dropLast) ∧
    Inserts (·.insertDirectory path) (·.insertDirectoryStepwise path) t
      (fun e => ∃ p, Blocks t path p ∧ e = .conflict p .file)
      (fun _ => False) (fun q => q ≠ [] ∧ q <+: path) := by
  obtain ⟨hne, hpath⟩ := segmentsOf_segments v path hv
  have hsealed : t.isSealed = false := by
    rw [← hopen]
    exact isSealed_copy t
  refine ⟨⟨insertFile_eq_error_iff t ht hsealed path hne, fun e he => ?_, fun u hu => ?_⟩,
    ⟨insertDirectory_eq_error_iff t ht hsealed path, fun e he => ?_, fun u hu => ?_⟩⟩
  · rw [insertFileStepwise_eq t path hne, he]
  · refine ⟨?_, insertFile_extends t u ht path hne hpath hu, insertFile_again t u path hne hu⟩
    rw [insertFileStepwise_eq t path hne, hu]
  · rw [insertDirectoryStepwise_eq, he]
  · refine ⟨?_, insertDirectory_extends t u ht path hpath hu, insertDirectory_again t u path hu⟩
    rw [insertDirectoryStepwise_eq, hu]

/-- The way to `b/a/y/n` leads through the file `b/a/y`, the directory `b/a` cannot become a file,
and new entries come behind the old ones. -/
theorem insertion_exact_attic :
    attic.copy.insertFile ["b", "a", "y", "n"] = .error (.conflict ["b", "a", "y"] .file) ∧
    attic.copy.insertFile ["b", "a"] = .error (.conflict ["b", "a"] .directory) ∧
    ∃ u, attic.copy.insertFile ["b", "c", "w"] = .ok u ∧ ["b", "c", "w"] ∈ u.filePaths [] ∧
      ["b", "c"] ∈ u.dirPaths [] ∧ u.insertFile ["b", "c", "w"] = .ok u := by
  have hwell : attic.copy.WellFormed := withSeal_wellFormed false attic attic_built.wellFormed
  have hexact := fun v path hv => (insertion_exact attic.copy hwell (copy_copy attic) v path hv).1
  obtain ⟨hthrough, -, -⟩ := hexact (.str "b/a/y/n") ["b", "a", "y", "n"] (by rfl)
  obtain ⟨hplace, -, -⟩ := hexact (.str "b/a") ["b", "a"] (by rfl)
  obtain ⟨-, -, hgrown⟩ := hexact (.str "b/c/w") ["b", "c", "w"] (by rfl)
  have hblocked : Blocks attic.copy ["b", "a", "y"] ["b", "a", "y"] :=
    (blockingFile?_eq_some_iff _ hwell _ _).mp (by decide +kernel)
  have hfree : ¬ ∃ p, Blocks attic.copy ["b"] p := by
    rintro ⟨p, hp⟩
    have hfound := (blockingFile?_eq_some_iff _ hwell _ p).mpr hp
    cases hfound
  obtain ⟨-, hextends, hagain⟩ := hgrown _ rfl
  refine ⟨(hthrough _).mpr (.inl ⟨_, hblocked, rfl⟩),
    (hplace _).mpr (.inr ⟨hfree, by decide +kernel, rfl⟩), _, rfl,
    (hextends.files _).mpr (.inr rfl), (hextends.dirs _).mpr (.inr ⟨by decide, by decide⟩), hagain⟩

end DocNavigation.Tree
