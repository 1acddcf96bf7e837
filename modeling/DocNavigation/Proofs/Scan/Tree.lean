import DocNavigation.Proofs.Filter.Compiled
import DocNavigation.Proofs.Scan.Walk
import DocNavigation.Proofs.Tree.Entries
import DocNavigation.Proofs.Tree.Planted

/-!
The tree of a scanned folder. It has the files that the walk finds and the folders on the way to
them, and at each node both are in the order of their names.
-/

namespace DocNavigation.Scan

theorem checkPath_str (path segments : List String)
    (h : Name.checkPath (path.map .str) = .ok segments) : segments = path := by
  rw [Name.checkPath] at h
  split at h
  case isTrue => cases h
  case isFalse =>
    have hall := List.forall₂_map_left_iff.mp ((Result.mapM_eq_ok_iff _ _ _).mp h)
    have hsame : List.Forall₂ (fun s s' : String => s = s') path segments := by
      refine hall.imp fun s s' hs => ?_
      rw [Name.check] at hs
      split at hs
      case isTrue => exact Except.ok.inj hs
      case isFalse => cases hs
    exact (List.forall₂_eq_eq_eq ▸ hsame : path = segments).symm

theorem insertAll_ok (t u : Tree) (paths : List (List String)) (h : insertAll t paths = .ok u) :
    u = t.plantAll paths := by
  induction paths generalizing t with
  | nil =>
    cases h
    rfl
  | cons path paths ih =>
    rw [insertAll, List.foldlM_cons, Result.bind_eq_ok_iff] at h
    obtain ⟨next, hnext, h⟩ := h
    cases hpath : Name.checkPath (path.map .str) with
    | error e =>
      rw [hpath] at hnext
      cases hnext
    | ok segments =>
      rw [hpath] at hnext
      have hplant := Tree.insertFile_ok_plant t next segments hnext
      rw [checkPath_str path segments hpath] at hplant
      rw [ih next h, hplant]
      rfl

/-- The tree of a folder, told folder by folder. -/
def treeBelow (d : Disk) (f : Filter) : (fuel : Nat) → Place → String → Tree
  | 0, _, n => .empty n
  | fuel + 1, p, n =>
    .node n false
      (((folderNames d p).filter fun s => !f.rejects s).filterMap fun s =>
        if filesBelow d f fuel (p ++ [s]) [] = [] then none
        else some (treeBelow d f fuel (p ++ [s]) s))
      ((fileNames d p).filter f.accepts)

section
variable (d : Disk) (f : Filter) (fuel : Nat) (p : Place) (n : String)

theorem treeBelow_name : (treeBelow d f fuel p n).name = n := by
  cases fuel <;> rfl

theorem treeBelow_isSealed : (treeBelow d f fuel p n).isSealed = false := by
  cases fuel <;> rfl

theorem plantAll_filesBelow (hd : d.Regular) :
    (Tree.empty n).plantAll (filesBelow d f fuel p []) = treeBelow d f fuel p n := by
  induction fuel generalizing p n with
  | zero => rfl
  | succ fuel ih =>
    have hfiles : ([] ++ (fileNames d p).filter f.accepts).Nodup :=
      ((fileNames_increasing d hd p).imp ne_of_lt).filter _
    have hfolders : ((([] : List Tree).map Tree.name) ++
        (folderNames d p).filter fun s => !f.rejects s).Nodup :=
      ((folderNames_increasing d hd p).imp ne_of_lt).filter _
    rw [filesBelow_succ, Tree.plantAll_append, Tree.empty, Tree.plantAll_files n false [] [] _ hfiles,
      Tree.plantAll_dirs n false [] _ _ _ (fun s => filesBelow_full d f fuel (p ++ [s])) hfolders]
    simp only [ih, List.nil_append]
    rfl

theorem filePaths_treeBelow (above : List String) :
    (treeBelow d f fuel p n).filePaths above = filesBelow d f fuel p above := by
  induction fuel generalizing p n above with
  | zero => rfl
  | succ fuel ih =>
    rw [treeBelow, Tree.filePaths, filesBelow, Tree.filePathsAll_eq, List.filterMap_eq_flatMap_toList,
      List.flatMap_assoc]
    congr 1
    refine List.flatMap_congr fun s _ => ?_
    split
    case isTrue hnone =>
      rw [filesBelow_above, hnone]
      rfl
    case isFalse =>
      rw [Option.toList_some, List.flatMap_singleton, treeBelow_name, ih]

/-- A node of the tree is the tree of its folder. All its files are files of the whole, and only the
root can be without any. -/
theorem at?_treeBelow (q : List String) (u : Tree) (h : (treeBelow d f fuel p n).at? q = some u) :
    ∃ rest m, u = treeBelow d f rest (p ++ q) m ∧
      (q ≠ [] ∨ filesBelow d f fuel p [] ≠ [] → filesBelow d f rest (p ++ q) [] ≠ []) ∧
      ∀ rel ∈ filesBelow d f rest (p ++ q) [], q ++ rel ∈ filesBelow d f fuel p [] := by
  induction q generalizing fuel p n with
  | nil =>
    cases h
    exact ⟨fuel, n, by simp, by simp, by simp⟩
  | cons s q ih =>
    obtain ⟨c, hc, hu⟩ := (Tree.at?_cons_eq_some_iff _ u s q).mp h
    have hmem := List.mem_of_find?_eq_some hc
    have hname : c.name = s := by simpa using List.find?_some hc
    cases fuel with
    | zero => cases hmem
    | succ fuel =>
      -- a folder without files gives no child
      obtain ⟨r, hr, hbelow⟩ := List.mem_filterMap.mp hmem
      split at hbelow
      case isTrue => cases hbelow
      case isFalse hsome =>
        cases hbelow
        rw [treeBelow_name] at hname
        subst hname
        obtain ⟨rest, m, rfl, hfull, hall⟩ := ih fuel (p ++ [r]) r hu
        rw [List.append_assoc] at hfull hall ⊢
        refine ⟨rest, m, rfl, fun _ => hfull (.inr hsome), fun rel hrel => ?_⟩
        rw [filesBelow_succ, List.mem_append, List.mem_flatMap]
        exact .inr ⟨r, hr, List.mem_map_of_mem (hall rel hrel)⟩

theorem treeBelow_increasing (hd : d.Regular) : (treeBelow d f fuel p n).files.Pairwise (· < ·) ∧
    ((treeBelow d f fuel p n).dirs.map Tree.name).Pairwise (· < ·) := by
  cases fuel with
  | zero => exact ⟨.nil, .nil⟩
  | succ fuel =>
    refine ⟨(fileNames_increasing d hd p).filter _, ?_⟩
    rw [List.pairwise_map]
    refine List.Pairwise.filterMap _ ?_ ((folderNames_increasing d hd p).filter _)
    intro s s' hlt c hc c' hc'
    have hname : ∀ s c, (if filesBelow d f fuel (p ++ [s]) [] = [] then none
        else some (treeBelow d f fuel (p ++ [s]) s)) = some c → c.name = s := by
      intro s c hc
      split at hc
      case isTrue => cases hc
      case isFalse =>
        cases hc
        exact treeBelow_name d f fuel _ s
    rwa [hname s c hc, hname s' c' hc']

end

/-- The patterns of which one has to be found in a name. -/
def includedTexts (o : ScanOptions) : List String :=
  match o.included with
  | none | some [] => Settings.usualIncluded
  | some patterns => patterns

/-- The patterns of a scan that keep out: those given or the usual ones, and those for ignored names
unless these are to be disregarded. -/
def KeepsOut (d : Disk) (o : ScanOptions) (root : String) (texts : List String) : Prop :=
  ∃ ignored, texts = o.excluded.getD Settings.usualExcluded ++ ignored ∧
    if o.respectIgnored then ignoredPatterns d root = .ok ignored else ignored = []

def filterWith (o : ScanOptions) (ignored : List String) : Except Fault Filter := do
  let included ← compileAll (includedTexts o)
  let excluded ← compileAll (o.excluded.getD Settings.usualExcluded ++ ignored)
  return ⟨o.extensions.getD Settings.usualExtensions, included, excluded⟩

theorem filterFor_eq (d : Disk) (o : ScanOptions) (root : String) : filterFor d o root =
    (if o.respectIgnored then ignoredPatterns d root else .ok []) >>= filterWith o := by
  unfold filterFor
  cases o.respectIgnored <;> rfl

theorem filterFor_ok (d : Disk) (o : ScanOptions) (root : String) (f : Filter)
    (h : filterFor d o root = .ok f) : ∃ texts, KeepsOut d o root texts ∧
      (∀ s, f.rejects s = true ↔ Filter.IsFound texts s) ∧
      ∀ s, f.accepts s = true ↔ ¬ Filter.IsFound texts s ∧ Filter.IsFound (includedTexts o) s ∧
        Filter.hasExtension (o.extensions.getD Settings.usualExtensions) s = true := by
  rw [filterFor_eq] at h
  obtain ⟨ignored, hignored, h⟩ := (Result.bind_eq_ok_iff _ _ _).mp h
  obtain ⟨included, hincluded, h⟩ := (Result.bind_eq_ok_iff _ _ _).mp h
  obtain ⟨excluded, hexcluded, h⟩ := (Result.bind_eq_ok_iff _ _ _).mp h
  cases h
  have hrejects := Filter.matchesAny_iff _ excluded hexcluded
  have haccepts := Filter.matchesAny_iff (includedTexts o) included hincluded
  refine ⟨_, ⟨ignored, rfl, ?_⟩, hrejects, fun s => ?_⟩
  · split at hignored
    case isTrue hrespect => rwa [if_pos hrespect]
    case isFalse hrespect => rw [if_neg hrespect, Except.ok.inj hignored]
  · simp only [Filter.accepts, Filter.rejects, Bool.and_eq_true, Bool.not_eq_true', haccepts,
      ← hrejects s, Bool.not_eq_true, and_assoc]

theorem tree_ok (d : Disk) (o : ScanOptions) (path : String) (t : Tree) (h : tree d o path = .ok t) :
    ∃ p f, d.resolve true (d.absolute path) = .ok (.entry p .folder) ∧
      filterFor d o (d.absolute path) = .ok f ∧ insertAll (.empty "") (files d f p) = .ok t := by
  unfold tree at h
  simp only at h
  split at h
  case h_1 p hp =>
    obtain ⟨f, hf, h⟩ := (Result.bind_eq_ok_iff _ _ _).mp h
    exact ⟨p, f, hp, hf, (Result.mapError_eq_ok_iff _ _ _).mp h⟩
  case h_2 => cases h

/-- The files that a filter finds are told by the patterns it was made from. -/
theorem mem_files_iff_isFound (d : Disk) (hd : d.Regular) (o : ScanOptions) (p : Place)
    (f : Filter) (texts : List String) (hrejects : ∀ s, f.rejects s = true ↔ Filter.IsFound texts s)
    (haccepts : ∀ s, f.accepts s = true ↔ ¬ Filter.IsFound texts s ∧
      Filter.IsFound (includedTexts o) s ∧
      Filter.hasExtension (o.extensions.getD Settings.usualExtensions) s = true)
    (rel : List String) : rel ∈ files d f p ↔ ∃ way name, rel = way ++ [name] ∧
      d.ListsFile (p ++ way) name ∧ (∀ s ∈ rel, ¬ Filter.IsFound texts s) ∧
      Filter.IsFound (includedTexts o) name ∧
      Filter.hasExtension (o.extensions.getD Settings.usualExtensions) name = true := by
  rw [mem_files_iff d f hd]
  refine exists_congr fun way => exists_congr fun name => and_congr_right ?_
  rintro rfl
  have hkept : ∀ s, f.rejects s = false ↔ ¬ Filter.IsFound texts s := by
    intro s
    rw [← hrejects, Bool.not_eq_true]
  simp only [haccepts, hkept, List.forall_mem_append, List.forall_mem_singleton]
  constructor
  · rintro ⟨hfile, ⟨hout, hin, hextension⟩, hway⟩
    exact ⟨hfile, ⟨hway, hout⟩, hin, hextension⟩
  · rintro ⟨hfile, ⟨hway, hout⟩, hin, hextension⟩
    exact ⟨hfile, ⟨hout, hin, hextension⟩, hway⟩

/-- Sources with build output that a rule keeps out, and a link to a file. -/
def workshop : Disk :=
  ⟨[], [(["src"], .folder), (["src", ".gitignore"], .file "# output\nbuild/\n".toUTF8),
    (["src", "lib"], .folder), (["src", "lib", "a.rs"], .link "../../src/.gitignore"),
    (["src", "lib", "build"], .folder), (["src", "lib", "build", "b.rs"], .file ⟨#[]⟩)], []⟩

theorem workshop_regular : workshop.Regular :=
  ⟨Disk.wellFormed_of_entries workshop (by decide) rfl, by decide, by decide +kernel⟩

end DocNavigation.Scan
