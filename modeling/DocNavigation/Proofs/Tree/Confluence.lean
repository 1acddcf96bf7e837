import DocNavigation.Proofs.Tree.Entries
import Mathlib.Data.List.Dedup
import Mathlib.Data.List.Perm.Basic

/-!
Files inserted one after another. A list of paths is accepted exactly when none of them leads
through another one, and what comes of it has these files. Neither depends on the order, in which
only siblings can differ.
-/

namespace DocNavigation.Tree

/-- No path leads through another one. -/
def PrefixFree (paths : List (List String)) : Prop :=
  ∀ p ∈ paths, ∀ q ∈ paths, p <+: q → p = q

theorem PrefixFree.mono (ps qs : List (List String)) (h : PrefixFree qs) (hsub : ps ⊆ qs) :
    PrefixFree ps :=
  fun p hp q hq => h p (hsub hp) q (hsub hq)

theorem prefixFree_snoc (ps : List (List String)) (p : List String) : PrefixFree (ps ++ [p]) ↔
    PrefixFree ps ∧ ∀ q ∈ ps, (q <+: p → q = p) ∧ (p <+: q → p = q) := by
  simp only [PrefixFree, List.mem_append, List.mem_singleton]
  constructor
  · intro h
    exact ⟨fun q hq r hr => h q (.inl hq) r (.inl hr),
      fun q hq => ⟨h q (.inl hq) p (.inr rfl), h p (.inr rfl) q (.inl hq)⟩⟩
  · rintro ⟨hps, hp⟩ q (hq | rfl) r (hr | rfl)
    · exact hps q hq r hr
    · exact (hp q hq).1
    · exact (hp r hr).2
    · exact fun _ => rfl

/-- Inserts the files that the values spell, one after another. -/
def insertFiles (t : Tree) (values : List Json) : Except TreeError Tree :=
  values.foldlM (fun t v => segmentsOf v >>= t.insertFile) t

/-- An open tree whose files are those of the paths and whose directories are those on their way. -/
structure Filled (n : String) (paths : List (List String)) (t : Tree) : Prop where
  wellFormed : t.WellFormed
  opened : t.copy = t
  name : t.name = n
  valid : ∀ p ∈ paths, p ≠ [] ∧ ∀ s ∈ p, Name.isSegment s = true
  files : ∀ q l, t.hasFile (q ++ [l]) = true ↔ q ++ [l] ∈ paths
  dirs : ∀ q, (t.at? q).isSome = true ↔ q = [] ∨ ∃ p ∈ paths, q <+: p ∧ q ≠ p

theorem filled_empty (n : String) : Filled n [] (empty n) := by
  refine ⟨wellFormed_empty n, rfl, rfl, by simp, fun q l => ?_, fun q => ?_⟩
  · rw [hasFile_snoc]
    cases q <;> simp [at?, child?, empty, dirs, files]
  · cases q <;> simp [at?, child?, empty, dirs]

theorem exists_leaf (p : List String) (hp : p ≠ []) : ∃ way leaf, p = way ++ [leaf] :=
  ⟨p.dropLast, p.getLast hp, (List.dropLast_concat_getLast hp).symm⟩

section
variable (n : String) (paths : List (List String)) (t : Tree) (h : Filled n paths t)
  (p : List String) (hp : p ≠ [])

include h hp in
/-- A file fits in exactly if no file of the tree is on its way and it is on the way to none. -/
theorem insertFile_fits_iff : (∃ u, t.insertFile p = .ok u) ↔
    ∀ q ∈ paths, (q <+: p → q = p) ∧ (p <+: q → p = q) := by
  obtain ⟨way, leaf, rfl⟩ := exists_leaf p hp
  have hopen : t.isSealed = false := by
    rw [← h.opened]
    exact isSealed_copy t
  have hway : (∀ q l, q ++ [l] <+: way → t.hasFile (q ++ [l]) = false) ↔
      ∀ q ∈ paths, q <+: way ++ [leaf] → q = way ++ [leaf] := by
    constructor
    · intro hfree q hq hstart
      rcases List.prefix_concat_iff.mp hstart with rfl | hbefore
      · rfl
      · obtain ⟨r, l, rfl⟩ := exists_leaf q (h.valid q hq).1
        have hfile := (h.files r l).mpr hq
        rw [hfree r l hbefore] at hfile
        cases hfile
    · intro hends q l hstart
      rw [← Bool.not_eq_true, h.files]
      intro hmem
      have hsame := hends _ hmem (hstart.trans (List.prefix_append way [leaf]))
      rw [hsame] at hstart
      exact not_prefix_snoc way leaf hstart
  have hplace : t.at? (way ++ [leaf]) = none ↔
      ∀ q ∈ paths, way ++ [leaf] <+: q → way ++ [leaf] = q := by
    rw [← Option.not_isSome_iff_eq_none, h.dirs]
    simp only [List.append_eq_nil_iff, List.cons_ne_nil, and_false, false_or, not_exists, not_and,
      not_not]
  calc (∃ u, t.insertFile (way ++ [leaf]) = .ok u)
      ↔ (∀ q l, q ++ [l] <+: way → t.hasFile (q ++ [l]) = false) ∧
          t.at? (way ++ [leaf]) = none := by
        simp only [insertFile_eq_ok_iff, hopen, true_and, ← and_assoc, exists_and_left,
          exists_eq, and_true]
    _ ↔ ∀ q ∈ paths, (q <+: way ++ [leaf] → q = way ++ [leaf]) ∧
          (way ++ [leaf] <+: q → way ++ [leaf] = q) := by
        rw [hway, hplace, ← forall₂_and]

include h hp in
theorem Filled.insert (hsegments : ∀ s ∈ p, Name.isSegment s = true) (u : Tree)
    (hu : t.insertFile p = .ok u) : Filled n (paths ++ [p]) u := by
  obtain ⟨hwell, hname⟩ := insertFile_wellFormed t u p h.wellFormed hp hsegments hu
  obtain ⟨way, leaf, rfl⟩ := exists_leaf p hp
  obtain ⟨-, -, -, rfl⟩ := (insertFile_eq_ok_iff t u way leaf).mp hu
  refine ⟨hwell, ?_, hname.trans h.name, ?_, fun q l => ?_, fun q => ?_⟩
  · rw [grow_copy _ (addFile_copy leaf), h.opened]
  · intro q hq
    rcases List.mem_append.mp hq with hq | hq
    · exact h.valid q hq
    · rw [List.mem_singleton.mp hq]
      exact ⟨hp, hsegments⟩
  · rw [hasFile_grow_iff, h.files, List.mem_append, List.mem_singleton]
  · have hstart : q <+: way ↔ q <+: way ++ [leaf] ∧ q ≠ way ++ [leaf] := by
      rw [List.prefix_concat_iff]
      constructor
      · intro hq
        refine ⟨.inr hq, ?_⟩
        rintro rfl
        exact not_prefix_snoc way leaf hq
      · rintro ⟨rfl | hq, hne⟩
        · exact absurd rfl hne
        · exact hq
    rw [at?_grow_isSome_iff _ (addFile_name leaf) (addFile_dirs leaf), h.dirs, hstart]
    simp only [List.mem_append, List.mem_singleton, or_and_right, exists_or, exists_eq_left]
    rw [or_comm, or_assoc]

end

/-- The run, told from any tree that is filled already. -/
theorem insertFiles_filled (n : String) (values : List Json) (paths : List (List String))
    (hvalues : List.Forall₂ (fun v p => segmentsOf v = .ok p) values paths) (t : Tree)
    (done : List (List String)) (h : Filled n done t) (hdone : PrefixFree done) :
    ((∃ u, insertFiles t values = .ok u) ↔ PrefixFree (done ++ paths)) ∧
      ∀ u, insertFiles t values = .ok u → Filled n (done ++ paths) u := by
  induction hvalues generalizing t done with
  | nil =>
    rw [List.append_nil]
    refine ⟨iff_of_true ⟨t, rfl⟩ hdone, fun u hu => ?_⟩
    cases hu
    exact h
  | @cons v p values paths hv _ ih =>
    obtain ⟨hp, hsegments⟩ := segmentsOf_segments v p hv
    have hfits := insertFile_fits_iff n done t h p hp
    have hstep : insertFiles t (v :: values) = t.insertFile p >>= fun u => insertFiles u values := by
      rw [insertFiles, List.foldlM_cons, hv]
      rfl
    have hsnoc : done ++ p :: paths = done ++ [p] ++ paths := by simp
    rw [hstep, hsnoc]
    cases hu : t.insertFile p with
    | error e =>
      -- what comes later cannot mend a conflict
      refine ⟨iff_of_false nofun fun hfree => ?_, nofun⟩
      have hpart := ((prefixFree_snoc done p).mp (hfree.mono _ _ (List.subset_append_left _ _))).2
      obtain ⟨u, hok⟩ := hfits.mpr hpart
      rw [hu] at hok
      cases hok
    | ok u =>
      have hnext := (prefixFree_snoc done p).mpr ⟨hdone, hfits.mp ⟨u, hu⟩⟩
      exact ih u (done ++ [p]) (h.insert n done t p hp hsegments u hu) hnext

theorem mem_paths_iff (n : String) (paths : List (List String)) (t : Tree) (h : Filled n paths t)
    (s : String) : s ∈ t.paths ↔ s ∈ paths.map joined := by
  rw [Tree.paths, List.mem_map, List.mem_map]
  refine exists_congr fun p => and_congr_left fun _ => ?_
  rw [mem_filePaths_iff t h.wellFormed]
  constructor
  · rintro ⟨q, l, rfl, hfile⟩
    exact (h.files q l).mp hfile
  · intro hp
    obtain ⟨q, l, rfl⟩ := exists_leaf p (h.valid p hp).1
    exact ⟨q, l, rfl, (h.files q l).mpr hp⟩

theorem paths_nodup (n : String) (paths : List (List String)) (t : Tree) (h : Filled n paths t) :
    t.paths.Nodup := by
  have hvalid : ∀ p ∈ t.filePaths [], p ≠ [] ∧ ∀ s ∈ p, '/' ∉ s.toList := by
    intro p hp
    obtain ⟨q, l, rfl, hfile⟩ := (mem_filePaths_iff t h.wellFormed [] p).mp hp
    obtain ⟨hne, hsegments⟩ := h.valid _ ((h.files q l).mp hfile)
    exact ⟨hne, fun s hs => ((Name.isSegment_iff s).mp (hsegments s hs)).2.2.2.1⟩
  refine (filePaths_nodup t h.wellFormed []).map_on fun p hp q hq heq => ?_
  exact joined_injective p q (hvalid p hp).1 (hvalid q hq).1 (hvalid p hp).2 (hvalid q hq).2 heq

theorem Filled.alike (n : String) (ps qs : List (List String)) (t u : Tree) (ht : Filled n ps t)
    (hu : Filled n qs u) (hsame : ∀ p, p ∈ ps ↔ p ∈ qs) : Alike t u := by
  apply alike_of_sameEntries t u ht.wellFormed hu.wellFormed ht.opened hu.opened
    (ht.name.trans hu.name.symm)
  refine ⟨fun q => ?_, fun q l => ?_⟩
  · simp only [ht.dirs, hu.dirs, hsame]
  · rw [ht.files, hu.files, hsame]

/-- A list of files can be inserted exactly if no path leads through another one. The tree then
lists every path once, and in any other order the same files can be inserted and give the same tree
up to the order of siblings. -/
theorem insertFiles_confluent (n : String) (values : List Json) (paths : List (List String))
    (h : values.mapM segmentsOf = .ok paths) :
    ((∃ t, insertFiles (empty n) values = .ok t) ↔ ∀ p ∈ paths, ∀ q ∈ paths, p <+: q → p = q) ∧
    ∀ t, insertFiles (empty n) values = .ok t →
      t.paths.Perm (paths.map joined).dedup ∧ t.fileCount = (paths.map joined).dedup.length ∧
      ∀ others, others.Perm values → ∃ u, insertFiles (empty n) others = .ok u ∧ Alike t u := by
  have hvalues := (Result.mapM_eq_ok_iff segmentsOf values paths).mp h
  have hrun : ∀ values paths, List.Forall₂ (fun v p => segmentsOf v = .ok p) values paths →
      ((∃ t, insertFiles (empty n) values = .ok t) ↔ PrefixFree paths) ∧
      ∀ t, insertFiles (empty n) values = .ok t → Filled n paths t := by
    intro values paths hvalues
    exact insertFiles_filled n values paths hvalues (empty n) [] (filled_empty n) (by simp [PrefixFree])
  obtain ⟨hok, hfilled⟩ := hrun values paths hvalues
  refine ⟨hok, fun t ht => ?_⟩
  have hperm : t.paths.Perm (paths.map joined).dedup := by
    refine (List.perm_ext_iff_of_nodup (paths_nodup n paths t (hfilled t ht))
      (List.nodup_dedup _)).mpr fun s => ?_
    rw [mem_paths_iff n paths t (hfilled t ht), List.mem_dedup]
  refine ⟨hperm, ?_, fun others hothers => ?_⟩
  · rw [← hperm.length_eq, Tree.paths, List.length_map, length_filePaths]
  · -- the values in their other order spell the same paths in that order
    obtain ⟨ps, hps, hpaths⟩ := List.perm_comp_forall₂ hothers hvalues
    obtain ⟨hokOthers, hfilledOthers⟩ := hrun others ps hps
    have hfree := (hok.mp ⟨t, ht⟩).mono ps paths hpaths.subset
    obtain ⟨u, hu⟩ := hokOthers.mpr hfree
    exact ⟨u, hu, (hfilled t ht).alike n paths ps t u (hfilledOthers u hu) fun p => hpaths.symm.mem_iff⟩

/-- A path that comes twice, once as a text and once as a sequence, and the other order. -/
theorem insertFiles_confluent_reversed : ∃ t u,
    insertFiles (empty "") [.str "a/b/x", .str "y", .str "a/z", .arr [.str "y"]] = .ok t ∧
    insertFiles (empty "") [.arr [.str "y"], .str "a/z", .str "y", .str "a/b/x"] = .ok u ∧
    Alike t u ∧ t.paths.Perm ["a/b/x", "a/z", "y"] ∧ t.fileCount = 3 := by
  have hspelled : [Json.str "a/b/x", .str "y", .str "a/z", .arr [.str "y"]].mapM segmentsOf =
      .ok [["a", "b", "x"], ["y"], ["a", "z"], ["y"]] := by rfl
  obtain ⟨hok, hall⟩ := insertFiles_confluent "" _ _ hspelled
  obtain ⟨t, ht⟩ := hok.mpr (by decide)
  obtain ⟨hpaths, hcount, hothers⟩ := hall t ht
  obtain ⟨u, hu, halike⟩ := hothers _ (List.reverse_perm _)
  exact ⟨t, u, ht, hu, halike, hpaths, hcount⟩

end DocNavigation.Tree
