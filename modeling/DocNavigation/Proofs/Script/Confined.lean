import DocNavigation.Proofs.Disk.Inside
import DocNavigation.Proofs.Script.Import

/-!
Where scripts go and where they are looked for. The names of units are single segments however a
registry came about, so that none of them leads out of the folder or to the script of another unit.
-/

namespace DocNavigation.Script

/-- Everything that is written is a script of the registry. -/
theorem exportTo_eq (folder : String) (r : Registry) : exportTo folder r = (do
    let ps ← (filesOf folder r).mapM fun f => Disk.replaceFile f.1 f.2 "utf-8"
    Act.note (.info s!"Legacy: Exported {r.size} units to {folder}")
    return ps) := by
  rw [exportTo, filesOf, List.mapM_cons, List.mapM_map]
  simp only [bind_assoc, pure_bind, Function.comp_def]

/-- The names that the paths of a registry's scripts have below the folder. -/
def placesOf (r : Registry) : List (List String) :=
  [fileName] :: r.names.map fun n => [n, Sidebar.fileName]

/-- The scripts are below the folder, the ones of the units each in a folder of the unit's name, and
no two of them have the same path. -/
structure Confined (d : Disk) (folder : String) (r : Registry) : Prop where
  below : ∃ names, Path.Plain (d.absolute folder) names ∧
    List.Forall₂ (fun file place => Path.Plain (d.absolute file.1) (names ++ place))
      (filesOf folder r) (placesOf r)
  distinct : ((filesOf folder r).map fun file => d.absolute file.1).Nodup

theorem sidebar_plain (d : Disk) (folder unit : String) (hunit : Path.IsName unit)
    (names : List String) (h : Path.Plain (d.absolute folder) names) :
    Path.Plain (d.absolute (sidebarPath folder unit)) (names ++ [unit, Sidebar.fileName]) := by
  have hfile := Path.join_plain _ _ _ (Path.join_plain _ names unit h hunit)
    fileName_sidebar.isName
  rwa [List.append_assoc, ← absolute_sidebar d folder unit hunit] at hfile

theorem placesOf_nodup (r : Registry) (h : r.names.Nodup) : (placesOf r).Nodup := by
  rw [placesOf, List.nodup_cons]
  refine ⟨by simp, h.map ?_⟩
  intro n m heq
  exact (List.cons.inj heq).1

theorem confined (d : Disk) (folder : String) (r : Registry) (hdistinct : r.names.Nodup)
    (hunits : ∀ u ∈ r.units, Path.IsName u.name) : Confined d folder r := by
  obtain ⟨names, hplain⟩ := Disk.absolute_plain d folder
  have hfiles : List.Forall₂ (fun file place => Path.Plain (d.absolute file.1) (names ++ place))
      (filesOf folder r) (placesOf r) := by
    refine .cons ?_ ?_
    · rw [Disk.absolute_join d folder _ fileName_index.isName]
      exact Path.join_plain _ names _ hplain fileName_index.isName
    · rw [Registry.names, List.map_map, List.forall₂_map_left_iff, List.forall₂_map_right_iff,
        List.forall₂_same]
      exact fun u hu => sidebar_plain d folder u.name (hunits u hu) names hplain
  refine ⟨⟨names, hplain, hfiles⟩, ?_⟩
  have hpaths : List.Forall₂ (fun path place => Path.Plain path (names ++ place))
      ((filesOf folder r).map fun file => d.absolute file.1) (placesOf r) :=
    List.forall₂_map_left_iff.mpr hfiles
  refine Result.nodup_of_forall₂ hpaths ?_ (placesOf_nodup r hdistinct)
  intro path p q hp hq
  exact List.append_cancel_left (Path.plain_unique path _ _ hp hq)

section
variable (d₀ : Disk) (folder : String) (q : Place)
  (h : Disk.Enclosed d₀ (d₀.absolute folder) q)
include h

/-- Nothing outside the folder is touched, also by an export that fails. -/
theorem preserves_exportTo (r : Registry) (hunits : ∀ u ∈ r.units, Path.IsName u.name) :
    Act.Preserves (Disk.Inside q d₀) (exportTo folder r) := by
  obtain ⟨names, hplain⟩ := h.plain
  have hindex : Act.Preserves (Disk.Inside q d₀)
      (Disk.replaceFile (Path.join folder fileName) (render r) "utf-8") := by
    apply Disk.preserves_replaceFile d₀ _ q h _ names hplain fileName fileName_index.isName
    · exact Disk.absolute_join d₀ folder _ fileName_index.isName
    · exact fun d hd => hd.makeFolders_self d _ q
  have hsidebar : ∀ u ∈ r.units, Act.Preserves (Disk.Inside q d₀)
      (Disk.replaceFile (sidebarPath folder u.name) (Sidebar.render u.catalog) "utf-8") := by
    intro u hu
    have habove := Path.join_plain _ names u.name hplain (hunits u hu)
    apply Disk.preserves_replaceFile d₀ _ q h _ _ habove _ fileName_sidebar.isName
    · exact absolute_sidebar d₀ folder u.name (hunits u hu)
    · exact fun d hd => hd.makeFolders d _ q u.name (hunits u hu)
  refine hindex.bind _ _ fun index => ?_
  refine (Act.Preserves.mapM _ _ hsidebar).bind _ _ fun sidebars => ?_
  exact (Act.preserves_note _).bind _ _ fun _ => Act.preserves_pure _

end

/-- What an import reads besides its source: one script for each unit that the source tells of. -/
def sidebarsOf (d : Disk) (path : String) (folder : Option String) : List String :=
  match d.readText path with
  | .error _ => []
  | .ok text =>
    match parse text (some path), folder.filter (· ≠ "") with
    | .ok trees, some folder => trees.map fun t => sidebarPath folder t.1
    | _, _ => []

theorem blind_importCatalog (d e : Disk) (folder : Option String) (unit : String)
    (hfolder : ∀ f, folder.filter (· ≠ "") = some f →
      e.isFile (sidebarPath f unit) = d.isFile (sidebarPath f unit) ∧
      e.readText (sidebarPath f unit) = d.readText (sidebarPath f unit)) :
    Act.Blind d e (importCatalog folder unit) := by
  unfold importCatalog
  split
  case h_1 => exact Act.blind_pure _
  case h_2 f hf =>
    obtain ⟨hfile, htext⟩ := hfolder f hf
    apply Act.blind_disk
    · simp only [hfile]
    · split
      · refine Act.Blind.bind _ _ (Act.blind_look _ htext) fun _ _ text _ _ => ?_
        exact Act.blind_lift _
      · exact Act.Blind.bind _ _ (Act.blind_note _) fun _ _ _ _ _ => Act.blind_pure _

theorem blind_importUnit (d e : Disk) (folder : Option String) (r : Registry)
    (item : String × Tree) (hcatalog : Act.Blind d e (importCatalog folder item.1)) :
    Act.Blind d e (importUnit folder r item) := by
  refine hcatalog.bind _ _ fun _ _ c _ _ => ?_
  refine Act.Blind.bind _ _ (Act.blind_lift _) fun _ _ s _ _ => ?_
  exact (Act.blind_note _).bind _ _ fun _ _ _ _ _ => Act.blind_pure s

/-- Disks with the same source and the same scripts of its units make no difference. -/
theorem blind_importFrom (d e : Disk) (path : String) (folder : Option String)
    (hsource : e.readText path = d.readText path)
    (hsidebars : ∀ p ∈ sidebarsOf d path folder,
      e.isFile p = d.isFile p ∧ e.readText p = d.readText p) :
    Act.Blind d e (importFrom path folder) := by
  refine Act.Blind.bind _ _ (Act.blind_look _ hsource) fun h _ text hdisk htext => ?_
  refine Act.Blind.bind _ _ (Act.blind_lift _) fun k _ trees _ htrees => ?_
  rw [Act.run_look, hdisk] at htext
  rw [Act.run_lift] at htrees
  have hread : d.readText path = .ok text := congrArg Prod.fst htext
  have hparse := (Result.mapError_eq_ok_iff _ _ _).mp (congrArg Prod.fst htrees)
  refine Act.Blind.bind _ _ (Act.Blind.foldlM _ trees ?_ _) fun _ _ r _ _ => ?_
  · intro r item hitem
    apply blind_importUnit
    apply blind_importCatalog
    intro f hf
    apply hsidebars
    rw [sidebarsOf, hread]
    simp only [hparse, hf]
    exact List.mem_map_of_mem hitem
  · exact (Act.blind_note _).bind _ _ fun _ _ _ _ _ => Act.blind_pure _

/-- The scripts of units that an import looks for are in folders of the units' names. -/
theorem sidebarsOf_plain (d : Disk) (path : String) (folder : Option String) (p : String)
    (hp : p ∈ sidebarsOf d path folder) : ∃ f n, folder = some f ∧ Name.isSegment n = true ∧
      p = sidebarPath f n ∧ ∀ names, Path.Plain (d.absolute f) names →
        Path.Plain (d.absolute p) (names ++ [n, Sidebar.fileName]) := by
  unfold sidebarsOf at hp
  split at hp
  case h_1 => cases hp
  case h_2 text htext =>
    split at hp
    case h_2 => cases hp
    case h_1 trees f hparse hf =>
      obtain ⟨t, ht, rfl⟩ := List.mem_map.mp hp
      have hsegment := (Registry.parseLines_built _ _ _ _ _ (by simp) hparse t ht).1
      exact ⟨f, t.1, (Option.filter_eq_some_iff.mp hf).1, hsegment, rfl,
        sidebar_plain d f t.1 (isName_of_isSegment t.1 hsegment)⟩

/-- However the registry came about, an export writes its scripts and nothing else. Their paths are
below the folder and all different, and no place outside a folder without links is touched, whether
the export goes well or not. An import looks at its source and at scripts in folders of the units'
names, and at nothing else. -/
theorem scripts_confined (r : Registry) (hr : r.Reachable) (folder : String) :
    (exportTo folder r = do
      let ps ← (filesOf folder r).mapM fun f => Disk.replaceFile f.1 f.2 "utf-8"
      Act.note (.info s!"Legacy: Exported {r.size} units to {folder}")
      return ps) ∧
    (∀ d : Disk, Confined d folder r) ∧
    (∀ (h : Host) (q : Place), Disk.Enclosed h.disk (h.disk.absolute folder) q →
      Disk.Inside q h.disk ((exportTo folder r).run h).2.disk) ∧
    ∀ (d : Disk) (path : String) (above : Option String),
      (∀ p ∈ sidebarsOf d path above, ∃ f n, above = some f ∧ Name.isSegment n = true ∧
        p = sidebarPath f n ∧ ∀ names, Path.Plain (d.absolute f) names →
          Path.Plain (d.absolute p) (names ++ [n, Sidebar.fileName])) ∧
      ∀ e : Disk, e.readText path = d.readText path →
        (∀ p ∈ sidebarsOf d path above, e.isFile p = d.isFile p ∧ e.readText p = d.readText p) →
        Act.Blind d e (importFrom path above) := by
  obtain ⟨hdistinct, hbuilt⟩ := Registry.Reachable.sound r hr
  have hunits : ∀ u ∈ r.units, Path.IsName u.name :=
    fun u hu => isName_of_isSegment u.name (hbuilt u hu).name
  refine ⟨exportTo_eq folder r, fun d => confined d folder r hdistinct hunits, ?_, ?_⟩
  · intro h q henclosed
    exact preserves_exportTo h.disk folder q henclosed r hunits h (.refl q h.disk)
  · exact fun d path above =>
      ⟨sidebarsOf_plain d path above, fun e => blind_importFrom d e path above⟩

theorem furnished_enclosed : Disk.Enclosed furnished (furnished.absolute "js") ["js"] where
  plain := Disk.absolute_plain furnished "js"
  found := by rfl
  unlinked p t _ := by
    unfold Disk.at? furnished
    split
    · simp
    · rw [List.find?_cons]
      split <;> simp

theorem scripts_confined_lineEnds : Artifact.lineEnds.Reachable ∧
    Confined furnished "js" Artifact.lineEnds ∧
    Disk.Enclosed furnished (furnished.absolute "js") ["js"] ∧
    Disk.Inside ["js"] furnished
      ((exportTo "js" Artifact.lineEnds).run { disk := furnished }).2.disk := by
  obtain ⟨-, hconfined, hinside, -⟩ :=
    scripts_confined Artifact.lineEnds Artifact.lineEnds_reachable "js"
  exact ⟨Artifact.lineEnds_reachable, hconfined furnished, furnished_enclosed,
    hinside { disk := furnished } ["js"] furnished_enclosed⟩

end DocNavigation.Script
