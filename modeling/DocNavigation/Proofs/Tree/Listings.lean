import DocNavigation.Proofs.Tree.Json
import DocNavigation.Proofs.Tree.Confluence
import DocNavigation.Proofs.Tree.Planted

/-!
Trees made anew from their listings. The directories of a tree in the order of its listing, inserted
one after another, give the tree without its files, and the files then give the tree: the listings
keep the order of siblings at every node, and the directories that are empty.
-/

namespace DocNavigation.Tree

/-- Inserts the directories that the values spell, one after another. -/
def insertDirectories (t : Tree) (values : List Json) : Except TreeError Tree :=
  values.foldlM (fun t v => segmentsOf v >>= t.insertDirectory) t

/-- The tree of two listings: the directories are inserted into an empty tree and then the files. -/
def ofListings (directories files : List String) : Except TreeError Tree := do
  let t ← insertDirectories (empty "") (directories.map .str)
  insertFiles t (files.map .str)

theorem segmentsOf_joined (p : List String) (hp : p ≠ [])
    (hsegments : ∀ s ∈ p, Name.isSegment s = true) : segmentsOf (.str (joined p)) = .ok p := by
  have hsplit := split_joined p hp fun s hs => ((Name.isSegment_iff s).mp (hsegments s hs)).2.2.2.1
  have hchecked : (p.map Json.str).mapM (Name.check "tree") = .ok p := by
    refine (Result.mapM_eq_ok_iff _ _ _).mpr (List.forall₂_map_left_iff.mpr ?_)
    exact List.forall₂_same.mpr fun s hs => Name.check_str "tree" s (hsegments s hs)
  rw [segmentsOf, hsplit, Name.checkPath, if_neg (by simpa using hp), hchecked]
  rfl

/-- Insertions of texts are those of the paths that the texts spell. -/
theorem foldlM_joined (ins : Tree → List String → Except TreeError Tree) (t : Tree)
    (paths : List (List String))
    (hvalid : ∀ p ∈ paths, p ≠ [] ∧ ∀ s ∈ p, Name.isSegment s = true) :
    ((paths.map joined).map Json.str).foldlM (fun t v => segmentsOf v >>= ins t) t =
      paths.foldlM ins t := by
  induction paths generalizing t with
  | nil => rfl
  | cons p paths ih =>
    rw [List.forall_mem_cons] at hvalid
    rw [List.map_cons, List.map_cons, List.foldlM_cons, List.foldlM_cons,
      segmentsOf_joined p hvalid.1.1 hvalid.1.2]
    exact congrArg (ins t p >>= ·) (funext fun u => ih u hvalid.2)

theorem dirPathsAll_eq (above : List String) (ts : List Tree) : dirPathsAll above ts =
    ts.flatMap fun c => (above ++ [c.name]) :: dirPaths (above ++ [c.name]) c := by
  induction ts with
  | nil => rfl
  | cons t ts ih => rw [dirPathsAll, ih, List.flatMap_cons]

theorem filePaths_above (t : Tree) (above : List String) :
    t.filePaths above = (t.filePaths []).map (above ++ ·) := by
  induction t using of_dirs generalizing above with
  | h n s ds fs ih =>
    rw [filePaths, filePaths, filePathsAll_eq, filePathsAll_eq, List.map_append, List.map_map,
      List.map_flatMap]
    refine congrArg _ (List.flatMap_congr fun d hd => ?_)
    rw [ih d hd (above ++ [d.name]), ih d hd ([] ++ [d.name]), List.map_map]
    simp

theorem dirPaths_above (t : Tree) (above : List String) :
    t.dirPaths above = (t.dirPaths []).map (above ++ ·) := by
  induction t using of_dirs generalizing above with
  | h n s ds fs ih =>
    rw [dirPaths, dirPaths, dirPathsAll_eq, dirPathsAll_eq, List.map_flatMap]
    refine List.flatMap_congr fun d hd => ?_
    rw [ih d hd (above ++ [d.name]), ih d hd ([] ++ [d.name]), List.map_cons, List.map_map]
    simp

section
variable (n : String) (sealing : Bool) (ds : List Tree) (fs : List String)

/-- The files of a node come first, and then those of its directories one by one. -/
theorem filePaths_node : (node n sealing ds fs).filePaths [] =
    fs.map ([·]) ++ ds.flatMap fun d => (d.filePaths []).map (d.name :: ·) := by
  rw [filePaths, filePathsAll_eq]
  refine congrArg _ (List.flatMap_congr fun d _ => ?_)
  rw [filePaths_above]
  rfl

/-- Each directory of a node comes before those below it. -/
theorem dirPaths_node : (node n sealing ds fs).dirPaths [] =
    ds.flatMap fun d => [d.name] :: (d.dirPaths []).map (d.name :: ·) := by
  rw [dirPaths, dirPathsAll_eq]
  refine List.flatMap_congr fun d _ => ?_
  rw [dirPaths_above]
  rfl

end

theorem filePaths_valid (t : Tree) (ht : t.WellFormed) :
    ∀ p ∈ t.filePaths [], p ≠ [] ∧ ∀ s ∈ p, Name.isSegment s = true := by
  induction t using of_dirs with
  | h n sealing ds fs ih =>
    obtain ⟨horder, hwell⟩ := (wellFormed_iff _).mp ht
    rw [filePaths_node, List.forall_mem_append, List.forall_mem_map]
    refine ⟨fun f hf => ⟨List.cons_ne_nil _ _, ?_⟩, fun p hp => ?_⟩
    · simpa using horder.fileNames f hf
    · obtain ⟨d, hd, hp⟩ := List.mem_flatMap.mp hp
      obtain ⟨q, hq, rfl⟩ := List.mem_map.mp hp
      exact ⟨List.cons_ne_nil _ _,
        List.forall_mem_cons.mpr ⟨horder.dirNames d hd, (ih d hd (hwell d hd) q hq).2⟩⟩

theorem dirPaths_valid (t : Tree) (ht : t.WellFormed) :
    ∀ p ∈ t.dirPaths [], p ≠ [] ∧ ∀ s ∈ p, Name.isSegment s = true := by
  induction t using of_dirs with
  | h n sealing ds fs ih =>
    obtain ⟨horder, hwell⟩ := (wellFormed_iff _).mp ht
    intro p hp
    rw [dirPaths_node] at hp
    obtain ⟨d, hd, hp⟩ := List.mem_flatMap.mp hp
    rcases List.mem_cons.mp hp with rfl | hp
    · exact ⟨List.cons_ne_nil _ _, by simpa using horder.dirNames d hd⟩
    · obtain ⟨q, hq, rfl⟩ := List.mem_map.mp hp
      exact ⟨List.cons_ne_nil _ _,
        List.forall_mem_cons.mpr ⟨horder.dirNames d hd, (ih d hd (hwell d hd) q hq).2⟩⟩

section
variable (n : String) (before after : List Tree) (c : Tree) (fs : List String)
  (hnew : c.name ∉ before.map name)
include hnew

theorem child?_among : (node n false (before ++ c :: after) fs).child? c.name = some c := by
  have hbefore : before.find? (fun t => decide (t.name = c.name)) = none := by
    rw [List.find?_eq_none]
    intro t ht hname
    exact hnew (of_decide_eq_true hname ▸ List.mem_map_of_mem ht)
  simp [child?, dirs, List.find?_append, hbefore]

theorem updateNamed_among (f : Tree → Tree) :
    updateNamed c.name f (before ++ c :: after) = before ++ f c :: after := by
  induction before with
  | nil => simp [updateNamed]
  | cons t before ih =>
    rw [List.map_cons, List.mem_cons, not_or] at hnew
    rw [List.cons_append, updateNamed, if_neg (Ne.symm hnew.1), ih hnew.2, List.cons_append]

theorem blockingFile?_among (p : List String) (hfile : c.name ∉ fs)
    (hblock : c.blockingFile? p = none) :
    (node n false (before ++ c :: after) fs).blockingFile? (c.name :: p) = none := by
  have hfree : ¬ (node n false (before ++ c :: after) fs).files.contains c.name = true :=
    mt List.contains_iff_mem.mp hfile
  rw [blockingFile?, if_neg hfree, child?_among n before after c fs hnew]
  simp [hblock]

end

theorem insertDirectory_eq_ok_iff (t u : Tree) (path : List String) :
    t.insertDirectory path = .ok u ↔
      t.isSealed = false ∧ t.blockingFile? path = none ∧ u = grow id path t := by
  rw [insertDirectory]
  cases t.isSealed with
  | true => simp
  | false => cases t.blockingFile? path <;> simp [eq_comm]

/-- What goes in through one directory of a node goes into that directory. -/
def Inward (ins : Tree → List String → Except TreeError Tree) : Prop :=
  ∀ (n : String) (before after : List Tree) (c d : Tree) (fs p : List String), p ≠ [] →
    c.name ∉ before.map name → c.name ∉ fs → ins c p = .ok d →
    d.name = c.name ∧
      ins (.node n false (before ++ c :: after) fs) (c.name :: p) =
        .ok (.node n false (before ++ d :: after) fs)

theorem inward_insertDirectory : Inward insertDirectory := by
  intro n before after c d fs p _ hnew hfile h
  obtain ⟨-, hblock, rfl⟩ := (insertDirectory_eq_ok_iff c d p).mp h
  refine ⟨grow_name id (fun _ => rfl) p c, (insertDirectory_eq_ok_iff _ _ _).mpr ⟨rfl, ?_, ?_⟩⟩
  · exact blockingFile?_among n before after c fs hnew p hfile hblock
  · exact congrArg (node n false · fs) (updateNamed_among before after c hnew (grow id p)).symm

theorem inward_insertFile : Inward insertFile := by
  intro n before after c d fs p hp hnew hfile h
  obtain ⟨way, leaf, rfl⟩ := exists_leaf p hp
  obtain ⟨-, hfree, hplace, rfl⟩ := (insertFile_eq_ok_iff c d way leaf).mp h
  refine ⟨grow_name _ (addFile_name leaf) way c, ?_⟩
  rw [← List.cons_append, insertFile_eq_ok_iff, ← blockingFile?_eq_none_iff]
  rw [← blockingFile?_eq_none_iff] at hfree
  refine ⟨rfl, blockingFile?_among n before after c fs hnew way hfile hfree, ?_, ?_⟩
  · rw [List.cons_append, at?_cons, child?_among n before after c fs hnew, Option.bind_some, hplace]
  · exact congrArg (node n false · fs)
      (updateNamed_among before after c hnew (grow (addFile leaf) way)).symm

/-- So do many of them, one after another. -/
theorem Inward.foldlM (ins : Tree → List String → Except TreeError Tree) (h : Inward ins)
    (n : String) (before after : List Tree) (c d : Tree) (fs : List String)
    (paths : List (List String)) (hfull : ∀ p ∈ paths, p ≠ []) (hnew : c.name ∉ before.map name)
    (hfile : c.name ∉ fs) (hrun : paths.foldlM ins c = .ok d) :
    (paths.map (c.name :: ·)).foldlM ins (.node n false (before ++ c :: after) fs) =
      .ok (.node n false (before ++ d :: after) fs) := by
  induction paths generalizing c with
  | nil =>
    cases hrun
    rfl
  | cons p paths ih =>
    rw [List.forall_mem_cons] at hfull
    rw [List.foldlM_cons, Result.bind_eq_ok_iff] at hrun
    obtain ⟨e, hfirst, hrest⟩ := hrun
    obtain ⟨hname, hgoes⟩ := h n before after c e fs p hfull.1 hnew hfile hfirst
    rw [← hname] at hnew hfile
    have hafter := ih e hfull.2 hnew hfile hrest
    rw [List.map_cons, List.foldlM_cons, hgoes, ← hname]
    exact hafter

mutual

/-- The open tree of the directories alone. -/
def bare : Tree → Tree
  | .node n _ ds _ => .node n false (bareAll ds) []

def bareAll : List Tree → List Tree
  | [] => []
  | t :: ts => bare t :: bareAll ts

end

theorem bareAll_eq_map (ts : List Tree) : bareAll ts = ts.map bare := by
  induction ts with
  | nil => rfl
  | cons t ts ih => rw [bareAll, List.map_cons, ih]

theorem bare_name (t : Tree) : t.bare.name = t.name := by
  cases t
  rfl

theorem map_name_bare (ts : List Tree) : (ts.map bare).map name = ts.map name := by
  rw [List.map_map]
  exact List.map_congr_left fun t _ => bare_name t

section
variable (n : String) (done : List Tree)

/-- The directories of a node are created one by one behind those that are there, and each is
filled before the next one comes. -/
theorem foldlM_dirs (ds : List Tree)
    (hds : ∀ d ∈ ds, (∀ p ∈ d.dirPaths [], p ≠ []) ∧
      (d.dirPaths []).foldlM insertDirectory (empty d.name) = .ok d.bare)
    (hnodup : (done.map name ++ ds.map name).Nodup) :
    (ds.flatMap fun d => [d.name] :: (d.dirPaths []).map (d.name :: ·)).foldlM insertDirectory
        (.node n false done []) = .ok (.node n false (done ++ ds.map bare) []) := by
  induction ds generalizing done with
  | nil => simp [pure, Except.pure]
  | cons d ds ih =>
    rw [List.forall_mem_cons] at hds
    have hnew : d.name ∉ done.map name := by
      intro hmem
      exact (List.nodup_append.mp hnodup).2.2 _ hmem _ (List.mem_cons_self ..) rfl
    have hfirst : (node n false done []).insertDirectory [d.name] =
        .ok (.node n false (done ++ [empty d.name]) []) := by
      refine (insertDirectory_eq_ok_iff _ _ _).mpr ⟨rfl, ?_, ?_⟩
      · have hmissing : (node n false done []).child? d.name = none :=
          (child?_eq_none_iff _ _).mpr hnew
        simp [blockingFile?, hmissing, files]
      · exact congrArg (node n false · []) (updateNamed_of_new d.name (grow id []) done hnew).symm
    have hbelow := inward_insertDirectory.foldlM _ n done [] (empty d.name) d.bare []
      (d.dirPaths []) hds.1.1 hnew (List.not_mem_nil) hds.1.2
    have hnodup' : ((done ++ [d.bare]).map name ++ ds.map name).Nodup := by
      rw [List.map_append, List.map_singleton, bare_name]
      simpa using hnodup
    have hrest := ih (done ++ [d.bare]) hds.2 hnodup'
    rw [List.append_assoc] at hrest
    rw [List.flatMap_cons, List.foldlM_append, List.foldlM_cons, hfirst]
    exact (congrArg (· >>= _) hbelow).trans hrest

/-- Files come behind those that are there. -/
theorem foldlM_files (ds : List Tree) (gs fs : List String) (hnodup : (gs ++ fs).Nodup)
    (hdirs : ∀ f ∈ fs, f ∉ ds.map name) :
    (fs.map ([·])).foldlM insertFile (.node n false ds gs) = .ok (.node n false ds (gs ++ fs)) := by
  induction fs generalizing gs with
  | nil => simp [pure, Except.pure]
  | cons f fs ih =>
    rw [List.forall_mem_cons] at hdirs
    have hnew : ¬ gs.contains f = true := by
      rw [List.contains_iff_mem]
      intro hmem
      exact (List.nodup_append.mp hnodup).2.2 f hmem f (List.mem_cons_self ..) rfl
    have hfirst : (node n false ds gs).insertFile [f] = .ok (.node n false ds (gs ++ [f])) := by
      have hplace : (node n false ds gs).at? [f] = none := by
        rw [at?_cons, (child?_eq_none_iff f (node n false ds gs)).mpr hdirs.1]
        rfl
      refine (insertFile_eq_ok_iff _ _ [] f).mpr ⟨rfl, by simp, hplace, ?_⟩
      exact (if_neg hnew).symm
    have hsnoc : gs ++ f :: fs = gs ++ [f] ++ fs := by simp
    rw [hsnoc] at hnodup ⊢
    rw [List.map_cons, List.foldlM_cons, hfirst]
    exact ih (gs ++ [f]) hnodup hdirs.2

/-- The directories, which are all there, are filled with their files one by one. -/
theorem foldlM_below (fs : List String) (ds : List Tree)
    (hds : ∀ d ∈ ds, (∀ p ∈ d.filePaths [], p ≠ []) ∧
      (d.filePaths []).foldlM insertFile d.bare = .ok d.copy)
    (hnodup : (done.map name ++ ds.map name).Nodup) (hfiles : ∀ d ∈ ds, d.name ∉ fs) :
    (ds.flatMap fun d => (d.filePaths []).map (d.name :: ·)).foldlM insertFile
        (.node n false (done ++ ds.map bare) fs) =
      .ok (.node n false (done ++ ds.map copy) fs) := by
  induction ds generalizing done with
  | nil => rfl
  | cons d ds ih =>
    rw [List.forall_mem_cons] at hds hfiles
    have hnew : d.bare.name ∉ done.map name := by
      rw [bare_name]
      intro hmem
      exact (List.nodup_append.mp hnodup).2.2 _ hmem _ (List.mem_cons_self ..) rfl
    have hfree : d.bare.name ∉ fs := by
      rw [bare_name]
      exact hfiles.1
    have hbelow := inward_insertFile.foldlM _ n done (ds.map bare) d.bare d.copy fs
      (d.filePaths []) hds.1.1 hnew hfree hds.1.2
    rw [bare_name] at hbelow
    have hnodup' : ((done ++ [d.copy]).map name ++ ds.map name).Nodup := by
      rw [List.map_append, List.map_singleton, copy, withSeal_name]
      simpa using hnodup
    have hrest := ih (done ++ [d.copy]) hds.2 hnodup' hfiles.2
    rw [List.append_assoc, List.append_assoc] at hrest
    rw [List.flatMap_cons, List.foldlM_append]
    exact (congrArg (· >>= _) hbelow).trans hrest

end

theorem foldlM_dirPaths (t : Tree) (ht : t.WellFormed) :
    (t.dirPaths []).foldlM insertDirectory (empty t.name) = .ok t.bare := by
  induction t using of_dirs with
  | h n sealing ds fs ih =>
    obtain ⟨horder, hwell⟩ := (wellFormed_iff _).mp ht
    have hbelow := foldlM_dirs n [] ds
      (fun d hd => ⟨fun p hp => (dirPaths_valid d (hwell d hd) p hp).1, ih d hd (hwell d hd)⟩)
      (List.nodup_append.mp horder.distinct).1
    rw [dirPaths_node, bare, bareAll_eq_map]
    exact hbelow

theorem foldlM_filePaths (t : Tree) (ht : t.WellFormed) :
    (t.filePaths []).foldlM insertFile t.bare = .ok t.copy := by
  induction t using of_dirs with
  | h n sealing ds fs ih =>
    obtain ⟨horder, hwell⟩ := (wellFormed_iff _).mp ht
    obtain ⟨hdirs, hfiles, hapart⟩ := List.nodup_append.mp horder.distinct
    have hhere := foldlM_files n (ds.map bare) [] fs hfiles fun f hf hmem => by
      rw [map_name_bare] at hmem
      exact hapart f hmem f hf rfl
    have hbelow := foldlM_below n [] fs ds
      (fun d hd => ⟨fun p hp => (filePaths_valid d (hwell d hd) p hp).1, ih d hd (hwell d hd)⟩)
      hdirs fun d hd hmem => hapart _ (List.mem_map_of_mem hd) _ hmem rfl
    rw [filePaths_node, bare, bareAll_eq_map, List.foldlM_append, copy_node]
    exact (congrArg (· >>= _) hhere).trans hbelow

/-- Nothing is lost in the listings of a tree: the directories that it lists and then the files,
each inserted in the order of the listing, make an open tree that is the same, siblings in their
order and empty directories included. -/
theorem ofListings_same (t : Tree) (ht : t.Built) (hname : t.name = "") :
    ∃ u, ofListings t.directories t.paths = .ok u ∧ u.same t = true ∧ u = t.copy := by
  have hwell := ht.wellFormed
  have hdirs : insertDirectories (empty "") (t.directories.map .str) = .ok t.bare := by
    rw [← hname, directories, insertDirectories, foldlM_joined _ _ _ (dirPaths_valid t hwell)]
    exact foldlM_dirPaths t hwell
  have hfiles : insertFiles t.bare (t.paths.map .str) = .ok t.copy := by
    rw [paths, insertFiles, foldlM_joined _ _ _ (filePaths_valid t hwell)]
    exact foldlM_filePaths t hwell
  refine ⟨t.copy, ?_, ?_, rfl⟩
  · rw [ofListings, hdirs]
    exact hfiles
  · exact same_withSeal false t

/-- Directories out of order, two of them empty, and one that was closed with all below it. -/
def attic : Tree :=
  .node "" false
    [.node "b" true [.node "z" true [] [], .node "a" true [] ["y", "x"]] [], .node "a" false [] []]
    ["m", "k"]

theorem attic_built : attic.Built := by
  have hread : ofJson attic.toJson = .ok attic.copy := by rfl
  have hplace : attic.copy.at? ["b"] =
      some (.node "b" false [.node "z" false [] [], .node "a" false [] ["y", "x"]] []) := by rfl
  exact .edit attic.copy _ _ ["b"] (.ofJson _ _ hread) hplace (.close _)

theorem ofListings_same_attic : attic.Built ∧ attic.name = "" ∧
    attic.directories = ["b", "b/z", "b/a", "a"] ∧ attic.paths = ["m", "k", "b/a/y", "b/a/x"] ∧
    ∃ u, ofListings attic.directories attic.paths = .ok u ∧ u.same attic = true ∧ u = attic.copy :=
  ⟨attic_built, rfl, by decide +kernel, by decide +kernel, ofListings_same attic attic_built rfl⟩

end DocNavigation.Tree
