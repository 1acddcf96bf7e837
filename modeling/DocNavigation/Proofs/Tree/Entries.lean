import DocNavigation.Proofs.Named
import DocNavigation.Proofs.Text.Lines
import DocNavigation.Proofs.Tree.Growth

/-!
Trees told by their entries. The listing of a well-formed tree has every file once, and two
well-formed open trees with the same directories and files differ in the order of siblings only.
-/

namespace DocNavigation.Tree

mutual

/-- What holds of a node when it holds of its directories, holds of every tree. -/
theorem of_dirs {P : Tree → Prop} (h : ∀ (n : String) (s : Bool) (ds : List Tree)
    (fs : List String), (∀ d ∈ ds, P d) → P (.node n s ds fs)) : (t : Tree) → P t
  | .node n s ds fs => h n s ds fs (all_of_dirs h ds)

theorem all_of_dirs {P : Tree → Prop} (h : ∀ (n : String) (s : Bool) (ds : List Tree)
    (fs : List String), (∀ d ∈ ds, P d) → P (.node n s ds fs)) : (ts : List Tree) → ∀ t ∈ ts, P t
  | [] => nofun
  | t :: ts => List.forall_mem_cons.mpr ⟨of_dirs h t, all_of_dirs h ts⟩

end

theorem child?_eq_some_iff (t c : Tree) (ht : t.WellFormed) (s : String) :
    t.child? s = some c ↔ c ∈ t.dirs ∧ c.name = s :=
  Named.find?_eq_some_iff name t.dirs
    (List.nodup_append.mp ((wellFormed_iff t).mp ht).1.distinct).1 s c

theorem filePathsAll_eq (above : List String) (ts : List Tree) :
    filePathsAll above ts = ts.flatMap fun c => filePaths (above ++ [c.name]) c := by
  induction ts with
  | nil => rfl
  | cons t ts ih => rw [filePathsAll, ih, List.flatMap_cons]

mutual

theorem length_filePaths (above : List String) :
    (t : Tree) → (t.filePaths above).length = t.fileCount
  | .node _ _ ds fs => by
    rw [filePaths, fileCount, List.length_append, List.length_map, length_filePathsAll above ds]

theorem length_filePathsAll (above : List String) :
    (ts : List Tree) → (filePathsAll above ts).length = fileCountAll ts
  | [] => rfl
  | t :: ts => by
    rw [filePathsAll, fileCountAll, List.length_append, length_filePaths (above ++ [t.name]) t,
      length_filePathsAll above ts]

end

theorem mem_filePaths_iff (t : Tree) (ht : t.WellFormed) (above p : List String) :
    p ∈ t.filePaths above ↔ ∃ q l, p = above ++ (q ++ [l]) ∧ t.hasFile (q ++ [l]) = true := by
  induction t using of_dirs generalizing above p with
  | h n s ds fs ih =>
    have hwell := ((wellFormed_iff _).mp ht).2
    rw [filePaths, filePathsAll_eq, List.mem_append, List.mem_map, List.mem_flatMap]
    constructor
    · rintro (⟨l, hl, rfl⟩ | ⟨d, hd, hp⟩)
      · exact ⟨[], l, rfl, (hasFile_singleton _ l).mpr hl⟩
      · obtain ⟨q, l, rfl, hfile⟩ := (ih d hd (hwell d hd) _ p).mp hp
        have hchild := (child?_eq_some_iff _ d ht d.name).mpr ⟨hd, rfl⟩
        exact ⟨d.name :: q, l, by simp, (hasFile_cons _ d.name q l).mpr ⟨d, hchild, hfile⟩⟩
    · rintro ⟨q, l, rfl, hfile⟩
      cases q with
      | nil => exact .inl ⟨l, (hasFile_singleton _ l).mp hfile, rfl⟩
      | cons r q =>
        obtain ⟨d, hd, hbelow⟩ := (hasFile_cons _ r q l).mp hfile
        obtain ⟨hmem, rfl⟩ := (child?_eq_some_iff _ d ht r).mp hd
        exact .inr ⟨d, hmem, (ih d hmem (hwell d hmem) _ _).mpr ⟨q, l, by simp, hbelow⟩⟩

theorem filePaths_nodup (t : Tree) (ht : t.WellFormed) (above : List String) :
    (t.filePaths above).Nodup := by
  induction t using of_dirs generalizing above with
  | h n s ds fs ih =>
    obtain ⟨horder, hwell⟩ := (wellFormed_iff _).mp ht
    obtain ⟨hdirs, hfiles, -⟩ := List.nodup_append.mp horder.distinct
    have hbelow : ∀ d ∈ ds, ∀ p ∈ d.filePaths (above ++ [d.name]),
        ∃ q l, p = above ++ (d.name :: q ++ [l]) := by
      intro d hd p hp
      obtain ⟨q, l, rfl, -⟩ := (mem_filePaths_iff d (hwell d hd) _ p).mp hp
      exact ⟨q, l, by simp⟩
    rw [filePaths, filePathsAll_eq]
    refine List.nodup_append.mpr ⟨?_, List.nodup_flatMap.mpr ⟨fun d hd => ih d hd (hwell d hd) _, ?_⟩, ?_⟩
    · exact hfiles.map fun a b hab => by simpa using hab
    · -- what lies below two directories differs by their names
      refine (List.pairwise_map.mp hdirs).imp_of_mem fun {d e} hd he hne => ?_
      intro p hp hq
      obtain ⟨q, l, rfl⟩ := hbelow d hd p hp
      obtain ⟨q', l', heq⟩ := hbelow e he _ hq
      exact hne (List.cons.inj (List.append_cancel_left heq)).1
    · rintro a ha b hb rfl
      obtain ⟨l, -, rfl⟩ := List.mem_map.mp ha
      obtain ⟨d, hd, hp⟩ := List.mem_flatMap.mp hb
      obtain ⟨q, l', heq⟩ := hbelow d hd _ hp
      simpa using congrArg List.length heq

/-- A path without slashes in its segments can be read off its joined form. -/
theorem split_joined (p : List String) (hp : p ≠ []) (hps : ∀ s ∈ p, '/' ∉ s.toList) :
    Text.split '/' (joined p) = p :=
  Text.split_join '/' p hp hps

theorem joined_injective (p q : List String) (hp : p ≠ []) (hq : q ≠ [])
    (hps : ∀ s ∈ p, '/' ∉ s.toList) (hqs : ∀ s ∈ q, '/' ∉ s.toList)
    (h : joined p = joined q) : p = q := by
  rw [← split_joined p hp hps, h, split_joined q hq hqs]

/-- The same node up to the order of siblings, here and everywhere below. -/
inductive Alike : Tree → Tree → Prop
  | node (n : String) (s : Bool) (ds es gs : List Tree) (fs hs : List String) (hfiles : fs.Perm hs)
      (hdirs : ds.Perm es) (hall : List.Forall₂ Alike es gs) :
      Alike (.node n s ds fs) (.node n s gs hs)

/-- The same directories and the same files. -/
structure SameEntries (t u : Tree) : Prop where
  dirs : ∀ q, (t.at? q).isSome = true ↔ (u.at? q).isSome = true
  files : ∀ q l, t.hasFile (q ++ [l]) = true ↔ u.hasFile (q ++ [l]) = true

theorem SameEntries.child (t u : Tree) (h : SameEntries t u) (s : String) (c d : Tree)
    (hc : t.child? s = some c) (hd : u.child? s = some d) : SameEntries c d := by
  refine ⟨fun q => ?_, fun q l => ?_⟩
  · simpa [at?_cons, hc, hd] using h.dirs (s :: q)
  · have hfile := h.files (s :: q) l
    rw [hasFile_cons, hasFile_cons, hc, hd] at hfile
    simpa using hfile

theorem copy_eq_self_iff (n : String) (s : Bool) (ds : List Tree) (fs : List String) :
    (Tree.node n s ds fs).copy = .node n s ds fs ↔ s = false ∧ ∀ d ∈ ds, d.copy = d := by
  have hall : ds.map copy = ds ↔ ∀ d ∈ ds, d.copy = d := by
    conv_lhs => rhs; rw [← List.map_id ds]
    exact List.map_inj_left
  rw [copy_node, Tree.node.injEq, ← hall]
  simp [eq_comm]

section
variable (t u : Tree) (ht : t.WellFormed) (hu : u.WellFormed) (h : SameEntries t u)

include h in
theorem SameEntries.child?_isSome (s : String) :
    (t.child? s).isSome = true ↔ (u.child? s).isSome = true := by
  have hplace : ∀ v : Tree, v.at? [s] = v.child? s := by
    intro v
    rw [at?_cons]
    exact Option.bind_fun_some _
  rw [← hplace, ← hplace]
  exact h.dirs [s]

include ht hu h in
/-- Each directory of the second tree has its partner in the first one. -/
theorem SameEntries.partner (g : Tree) (hg : g ∈ u.dirs) :
    slot g.name t.dirs ∈ t.dirs ∧ SameEntries (slot g.name t.dirs) g := by
  have hgchild := (child?_eq_some_iff u g hu g.name).mpr ⟨hg, rfl⟩
  obtain ⟨d, hd⟩ := Option.isSome_iff_exists.mp
    ((h.child?_isSome t u g.name).mpr (by rw [hgchild]; rfl))
  rw [slot_of_child? t d g.name hd]
  exact ⟨((child?_eq_some_iff t d ht g.name).mp hd).1, h.child t u g.name d g hd hgchild⟩

include ht hu h in
theorem SameEntries.dirs_perm : t.dirs.Perm (u.dirs.map fun g => slot g.name t.dirs) := by
  have htdirs := (List.nodup_append.mp ((wellFormed_iff t).mp ht).1.distinct).1
  have hudirs := (List.nodup_append.mp ((wellFormed_iff u).mp hu).1.distinct).1
  have hnodup : (u.dirs.map fun g => slot g.name t.dirs).Nodup := by
    apply List.Nodup.of_map name
    rw [List.map_map]
    have hnames : u.dirs.map (name ∘ fun g => slot g.name t.dirs) = u.dirs.map name :=
      List.map_congr_left fun g _ => slot_name g.name t.dirs
    rw [hnames]
    exact hudirs
  refine (List.perm_ext_iff_of_nodup (List.Nodup.of_map name htdirs) hnodup).mpr fun d => ?_
  rw [List.mem_map]
  constructor
  · intro hd
    have hchild := (child?_eq_some_iff t d ht d.name).mpr ⟨hd, rfl⟩
    obtain ⟨g, hg⟩ := Option.isSome_iff_exists.mp
      ((h.child?_isSome t u d.name).mp (by rw [hchild]; rfl))
    obtain ⟨hmem, hgname⟩ := (child?_eq_some_iff u g hu d.name).mp hg
    refine ⟨g, hmem, ?_⟩
    rw [hgname]
    exact slot_of_child? t d d.name hchild
  · rintro ⟨g, hg, rfl⟩
    exact (h.partner t u ht hu g hg).1

include ht hu h in
theorem SameEntries.files_perm : t.files.Perm u.files := by
  have htfiles := (List.nodup_append.mp ((wellFormed_iff t).mp ht).1.distinct).2.1
  have hufiles := (List.nodup_append.mp ((wellFormed_iff u).mp hu).1.distinct).2.1
  refine (List.perm_ext_iff_of_nodup htfiles hufiles).mpr fun l => ?_
  exact (hasFile_singleton t l).symm.trans ((h.files [] l).trans (hasFile_singleton u l))

end

/-- Open trees of one name with the same entries differ at most in the order of siblings. -/
theorem alike_of_sameEntries (t u : Tree) (ht : t.WellFormed) (hu : u.WellFormed)
    (htopen : t.copy = t) (huopen : u.copy = u) (hname : t.name = u.name)
    (h : SameEntries t u) : Alike t u := by
  induction t using of_dirs generalizing u with
  | h n s ds fs ih =>
    obtain ⟨m, r, gs, hs⟩ := u
    obtain ⟨rfl, htdirsOpen⟩ := (copy_eq_self_iff n s ds fs).mp htopen
    obtain ⟨rfl, hudirsOpen⟩ := (copy_eq_self_iff m r gs hs).mp huopen
    obtain rfl : n = m := hname
    have htwell := ((wellFormed_iff _).mp ht).2
    have huwell := ((wellFormed_iff _).mp hu).2
    have hdirs : ds.Perm (gs.map fun g => slot g.name ds) := h.dirs_perm _ _ ht hu
    refine .node n false ds _ gs fs hs (h.files_perm _ _ ht hu) hdirs ?_
    refine List.forall₂_map_left_iff.mpr (List.forall₂_same.mpr fun g hg => ?_)
    obtain ⟨hmem, hentries⟩ := h.partner _ _ ht hu g hg
    exact ih _ hmem g (htwell _ hmem) (huwell g hg) (htdirsOpen _ hmem) (hudirsOpen g hg)
      (slot_name g.name ds) hentries

end DocNavigation.Tree
