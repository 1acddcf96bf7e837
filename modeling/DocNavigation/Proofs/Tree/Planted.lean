import DocNavigation.Proofs.Tree.Growth

/-!
Files that are planted in a tree one after another. Those below one directory are planted in that
directory, and a directory is added behind the others when its first file comes.
-/

namespace DocNavigation.Tree

/-- What an insertion that succeeds does. -/
def plant (t : Tree) (path : List String) : Tree :=
  grow (addFile (path.getLastD "")) path.dropLast t

theorem insertFile_ok_plant (t u : Tree) (path : List String) (h : t.insertFile path = .ok u) :
    u = t.plant path := by
  unfold insertFile at h
  split at h
  case isTrue => cases h
  case isFalse =>
    split at h
    case h_1 => cases h
    case h_2 =>
      split at h
      case isTrue => cases h
      case isFalse =>
        cases h
        rfl

def plantAll (t : Tree) (paths : List (List String)) : Tree :=
  paths.foldl plant t

section
variable (t : Tree) (s : String) (paths : List (List String))

theorem plant_name (path : List String) : (t.plant path).name = t.name :=
  grow_name _ (addFile_name _) _ t

theorem plantAll_name : (t.plantAll paths).name = t.name := by
  induction paths generalizing t with
  | nil => rfl
  | cons path paths ih => exact (ih (t.plant path)).trans (plant_name t path)

theorem plantAll_append (more : List (List String)) :
    t.plantAll (paths ++ more) = (t.plantAll paths).plantAll more :=
  List.foldl_append

theorem plant_cons (path : List String) (h : path ≠ []) :
    t.plant (s :: path) = t.withDirs (updateNamed s (·.plant path) t.dirs) := by
  obtain ⟨r, rest, rfl⟩ := List.exists_cons_of_ne_nil h
  rfl

/-- Paths that begin with one name are planted in the directory of that name. -/
theorem plantAll_cons (hfull : ∀ path ∈ paths, path ≠ []) (h : paths ≠ []) :
    t.plantAll (paths.map (s :: ·)) =
      t.withDirs (updateNamed s (·.plantAll paths) t.dirs) := by
  induction paths generalizing t with
  | nil => exact absurd rfl h
  | cons path paths ih =>
    rw [List.forall_mem_cons] at hfull
    have hfirst := plant_cons t s path hfull.1
    by_cases hnil : paths = []
    · rw [hnil]
      exact hfirst
    · have hrest := ih (t.plant (s :: path)) hfull.2 hnil
      have htwice := updateNamed_updateNamed (·.plantAll paths) (·.plant path)
        (fun u => plant_name u path) s t.dirs
      calc t.plantAll ((path :: paths).map (s :: ·))
          = (t.plant (s :: path)).plantAll (paths.map (s :: ·)) := rfl
        _ = t.withDirs (updateNamed s (·.plantAll paths) (updateNamed s (·.plant path) t.dirs)) := by
          rw [hrest, hfirst]
          rfl
        _ = t.withDirs (updateNamed s (·.plantAll (path :: paths)) t.dirs) := by
          rw [htwice]
          rfl

end

theorem updateNamed_of_new (s : String) (f : Tree → Tree) (ts : List Tree)
    (h : s ∉ ts.map name) : updateNamed s f ts = ts ++ [f (empty s)] := by
  induction ts with
  | nil => rfl
  | cons t ts ih =>
    rw [List.map_cons, List.mem_cons, not_or] at h
    rw [updateNamed, if_neg (Ne.symm h.1), ih h.2, List.cons_append]

section
variable (n : String) (sealing : Bool) (ds : List Tree) (fs : List String)

/-- New files come behind those that are there, in their order. -/
theorem plantAll_files (names : List String) (hnodup : (fs ++ names).Nodup) :
    (node n sealing ds fs).plantAll (names.map ([·])) = .node n sealing ds (fs ++ names) := by
  induction names generalizing fs with
  | nil => rw [List.append_nil]; rfl
  | cons name names ih =>
    have hnew : ¬ fs.contains name = true := by
      rw [List.contains_iff_mem]
      intro hmem
      exact (List.nodup_append.mp hnodup).2.2 name hmem name (List.mem_cons_self ..) rfl
    have hfirst : (node n sealing ds fs).plant [name] = .node n sealing ds (fs ++ [name]) := by
      change addFile name (node n sealing ds fs) = _
      rw [addFile]
      exact if_neg hnew
    have hsnoc : fs ++ name :: names = fs ++ [name] ++ names := by simp
    rw [hsnoc] at hnodup ⊢
    rw [← ih (fs ++ [name]) hnodup, ← hfirst]
    rfl

/-- Directories come in the order in which their files do, those without a file not at all. -/
theorem plantAll_dirs (names : List String) (below : String → List (List String))
    (hfull : ∀ s, ∀ path ∈ below s, path ≠ []) (hnodup : (ds.map name ++ names).Nodup) :
    (node n sealing ds fs).plantAll (names.flatMap fun s => (below s).map (s :: ·)) =
      .node n sealing (ds ++ names.filterMap fun s =>
        if below s = [] then none else some ((empty s).plantAll (below s))) fs := by
  induction names generalizing ds with
  | nil => rw [List.filterMap_nil, List.append_nil]; rfl
  | cons s names ih =>
    rw [List.flatMap_cons, plantAll_append, List.filterMap_cons]
    by_cases hnone : below s = []
    · have hrest : (ds.map name ++ names).Nodup :=
        hnodup.sublist (List.Sublist.append_left (List.sublist_cons_self s names) _)
      rw [if_pos hnone, hnone]
      exact ih ds hrest
    -- the directory is new, so that it comes behind those of the names before
    · have hnew : s ∉ ds.map name := by
        intro hmem
        exact (List.nodup_append.mp hnodup).2.2 s hmem s (List.mem_cons_self ..) rfl
      have hfirst : (node n sealing ds fs).plantAll ((below s).map (s :: ·)) =
          .node n sealing (ds ++ [(empty s).plantAll (below s)]) fs := by
        rw [plantAll_cons _ s (below s) (hfull s) hnone]
        exact congrArg (node n sealing · fs) (updateNamed_of_new s (·.plantAll (below s)) ds hnew)
      have hnames : (ds ++ [(empty s).plantAll (below s)]).map name = ds.map name ++ [s] := by
        rw [List.map_append, List.map_singleton, plantAll_name]
        rfl
      have hrest : ((ds ++ [(empty s).plantAll (below s)]).map name ++ names).Nodup := by
        rw [hnames]
        simpa using hnodup
      rw [if_neg hnone, hfirst, ih _ hrest]
      simp

end

end DocNavigation.Tree
