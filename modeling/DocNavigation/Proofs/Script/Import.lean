import DocNavigation.Proofs.Disk.Text
import DocNavigation.Proofs.Script.Export

/-!
Importing scripts from the folder that they were exported to.
-/

namespace DocNavigation.Script

/-- A unit that its two scripts tell in full. -/
structure Restorable (u : Component) : Prop where
  wellFormed : u.WellFormed
  long : ∀ category ∈ u.catalog.categories, ¬ Sidebar.IsShort category

section
variable (folder : String) (hfull : folder ≠ "")
include hfull

theorem run_importCatalog (u : Component) (hu : Restorable u) (host : Host)
    (hread : host.disk.readFile (sidebarPath folder u.name) =
      .ok (Sidebar.render u.catalog).toUTF8) :
    (importCatalog (some folder) u.name).run host = (.ok u.catalog.copy, host) := by
  have hfolder : (some folder).filter (· ≠ "") = some folder := by simp [hfull]
  obtain ⟨p, hp⟩ := (Disk.readFile_eq_ok_iff host.disk _ _).mp hread
  have hfile : host.disk.isFile (sidebarPath folder u.name) = true := by
    rw [Disk.isFile, Disk.entry?, hp]
  have htext := Disk.readText_noReturn host.disk _ _
    (Sidebar.noReturn_render u.catalog hu.wellFormed.catalog) hread
  unfold importCatalog
  rw [hfolder]
  simp only
  rw [Effect.run_bind, Act.run_disk]
  simp only [hfile, if_true]
  rw [Effect.run_bind, Act.run_look, htext]
  simp only
  rw [Act.run_lift, Sidebar.parse_render u.catalog hu.long hu.wellFormed.catalog]
  rfl

theorem run_importUnit (done : List Component) (u : Component) (hu : Restorable u)
    (hnew : u.name ∉ done.map (·.name)) (host : Host)
    (hread : host.disk.readFile (sidebarPath folder u.name) =
      .ok (Sidebar.render u.catalog).toUTF8) :
    ∃ host', host'.disk = host.disk ∧
      (importUnit (some folder) ⟨done, false⟩ (u.name, u.tree.copy)).run host =
        (.ok ⟨done ++ [u.close], false⟩, host') := by
  have hadd : (Registry.add ⟨done, false⟩ ⟨u.name, u.tree.copy, u.catalog.copy⟩).mapError
      Fault.registry = .ok ⟨done ++ [u.close], false⟩ := by
    rw [Result.mapError_eq_ok_iff, Registry.add_eq_ok_iff, ← Component.close_copy u]
    exact ⟨hu.wellFormed.name, rfl, hnew, rfl⟩
  rw [importUnit, Effect.run_bind, run_importCatalog folder hfull u hu host hread]
  simp only
  rw [Effect.run_bind, Act.run_lift, hadd]
  exact ⟨{ host with journal := host.journal ++
    [Registry.registered ⟨u.name, u.tree.copy, u.catalog.copy⟩] }, rfl, rfl⟩

/-- What is imported already, and what is still to be imported. -/
theorem run_importUnits (done units : List Component) (hunits : ∀ u ∈ units, Restorable u)
    (hdistinct : (done.map (·.name) ++ units.map (·.name)).Nodup) (host : Host)
    (hread : ∀ u ∈ units, host.disk.readFile (sidebarPath folder u.name) =
      .ok (Sidebar.render u.catalog).toUTF8) :
    ∃ host', host'.disk = host.disk ∧
      ((units.map fun u => (u.name, u.tree.copy)).foldlM (importUnit (some folder))
        ⟨done, false⟩).run host = (.ok ⟨done ++ units.map Component.close, false⟩, host') := by
  induction units generalizing done host with
  | nil =>
    refine ⟨host, rfl, ?_⟩
    rw [List.map_nil, List.map_nil, List.append_nil]
    rfl
  | cons u us ih =>
    rw [List.forall_mem_cons] at hunits hread
    have hnew : u.name ∉ done.map (·.name) := by
      intro hmem
      exact (List.nodup_append.mp hdistinct).2.2 _ hmem _ (List.mem_cons_self ..) rfl
    obtain ⟨host₁, hdisk₁, hfirst⟩ :=
      run_importUnit folder hfull done u hunits.1 hnew host hread.1
    rw [← hdisk₁] at hread
    have hlater : ((done ++ [u.close]).map (·.name) ++ us.map (·.name)).Nodup := by
      rw [List.map_append, List.append_assoc]
      exact hdistinct
    obtain ⟨host', hdisk', hrest⟩ := ih _ hunits.2 hlater host₁ hread.2
    refine ⟨host', hdisk'.trans hdisk₁, ?_⟩
    rw [List.map_cons, List.foldlM_cons, Effect.run_bind, hfirst]
    simp only
    rw [hrest, List.append_assoc, List.map_cons]
    rfl

end

section
variable (d : Disk) (folder : String) (q : Place) (r : Registry) (h : Exported d folder q r)
include h

theorem Exported.full : folder ≠ "" :=
  Disk.full_of_find d true folder _ ((Disk.resolve_eq_ok_iff d true folder _).mp h.found).2

theorem Exported.read_index :
    d.readFile (Path.join folder fileName) = .ok (render r).toUTF8 :=
  Disk.readFile_join d folder _ q h.found fileName_index _ h.index
    (h.room.join _ _ (h.full d folder q r) fileName_index)

theorem Exported.read_sidebar (u : Component) (hu : u ∈ r.units) (hname : Disk.FileName u.name) :
    d.readFile (sidebarPath folder u.name) = .ok (Sidebar.render u.catalog).toUTF8 := by
  have hfull := h.full d folder q r
  have hunit := Disk.resolve_join d folder _ q h.found hname .folder
    (h.wellFormed.above _ _ _ (h.sidebars u hu)) nofun (h.room.join _ _ hfull hname)
  exact Disk.readFile_join d _ _ _ hunit fileName_sidebar _ (h.sidebars u hu)
    (h.room.join_join _ _ hfull hname _ fileName_sidebar (by decide))

/-- Everything but the seals comes back. -/
theorem Exported.run_importFrom (hunits : ∀ u ∈ r.units, Restorable u)
    (hnames : ∀ u ∈ r.units, Disk.FileName u.name) (hdistinct : r.names.Nodup) (host : Host)
    (hdisk : host.disk = d) :
    ∃ host', (importFrom (Path.join folder fileName) (some folder)).run host =
      (.ok ⟨r.units.map Component.close, true⟩, host') := by
  subst hdisk
  have hindex := Disk.readText_noReturn _ _ _ (noReturn_render r) (h.read_index _ folder q r)
  have hparse : (parse (render r) (some (Path.join folder fileName))).mapError Fault.malformed =
      .ok (r.units.map fun u => (u.name, u.tree.copy)) :=
    (Result.mapError_eq_ok_iff _ _ _).mpr
      (parse_render r _ hdistinct fun u hu => (hunits u hu).wellFormed)
  obtain ⟨host', -, hfold⟩ := run_importUnits folder (h.full _ folder q r) [] r.units hunits hdistinct
    host fun u hu => h.read_sidebar _ folder q r u hu (hnames u hu)
  rw [importFrom, Effect.run_bind, Act.run_look, hindex]
  simp only
  rw [Effect.run_bind, Act.run_lift, hparse]
  simp only
  rw [Effect.run_bind, hfold]
  exact ⟨_, rfl⟩

end

/-- Scripts that are exported to a fresh folder and imported again give the registry back, frozen,
with the same artifact. There is one exception: a unit of the name of the index cannot be exported. -/
theorem exported_imports (r : Registry) (folder : String) (h : Host) (d₁ : Disk) (q : Place)
    (hr : r.Reachable)
    (hlong : ∀ u ∈ r.units, ∀ category ∈ u.catalog.categories, ¬ Sidebar.IsShort category)
    (hnames : ∀ n ∈ r.names, Disk.Nameable n) (hd : h.disk.WellFormed)
    (hfresh : Disk.Fresh h.disk folder d₁ q) :
    (fileName ∉ r.names → ∃ ps h', (exportTo folder r).run h = (.ok ps, h') ∧
      ∃ s h'', (importFrom (Path.join folder fileName) (some folder)).run h' = (.ok s, h'') ∧
        s.frozen = true ∧ s.names = r.names ∧
        List.Forall₂ (fun u v => Component.same u v = true) s.units r.units ∧
        Artifact.encode s = Artifact.encode r) ∧
    (fileName ∈ r.names → ∃ h', (exportTo folder r).run h =
      (.error (.disk (.refused .taken (h.disk.absolute (Path.join folder fileName)) none)), h')) := by
  obtain ⟨hdistinct, hbuilt⟩ := Registry.Reachable.sound r hr
  have hunits : ∀ u ∈ r.units, Restorable u :=
    fun u hu => ⟨Component.Built.wellFormed u (hbuilt u hu), hlong u hu⟩
  have hfiles : ∀ u ∈ r.units, Disk.FileName u.name :=
    fun u hu => ⟨isName_of_isSegment _ (hbuilt u hu).name, hnames _ (List.mem_map_of_mem hu)⟩
  refine ⟨?_, ?_⟩
  · intro hindex
    obtain ⟨ps, d', hexported, hrun⟩ :=
      run_exportTo_fresh h.disk folder d₁ q hfresh hd r hfiles hdistinct hindex
    obtain ⟨h', hdisk', hrun⟩ := hrun h rfl
    obtain ⟨h'', himport⟩ :=
      hexported.run_importFrom d' folder q r hunits hfiles hdistinct h' hdisk'
    refine ⟨ps, h', hrun, _, h'', himport, rfl, Component.map_name_close r.units, ?_,
      Artifact.encode_close r true⟩
    rw [List.forall₂_map_left_iff, List.forall₂_same]
    intro u _
    exact Component.close_same u
  · intro hindex
    exact run_exportTo_taken h.disk folder d₁ q hfresh hd r hfiles hdistinct hindex h rfl

/-- A machine with an empty disk, and its disk with one folder. -/
def bare : Host :=
  { disk := { workdir := [] } }

def furnished : Disk :=
  { workdir := [], entries := [(["js"], .folder)] }

theorem bare_fresh : Disk.Fresh bare.disk "js" furnished ["js"] where
  made := by rfl
  found := by rfl
  absolute := by rfl
  empty s := by simp [Disk.at?, furnished]
  device step := rfl
  room := by decide
  absoluteRoom := by decide

theorem exported_imports_lineEnds :
    Artifact.lineEnds.Reachable ∧ Disk.Fresh bare.disk "js" furnished ["js"] ∧
    ∃ ps h', (exportTo "js" Artifact.lineEnds).run bare = (.ok ps, h') ∧
      ∃ s h'', (importFrom "js/source-files.js" (some "js")).run h' = (.ok s, h'') ∧
        s.frozen = true ∧ s.names = Artifact.lineEnds.names ∧
        List.Forall₂ (fun u v => Component.same u v = true) s.units Artifact.lineEnds.units ∧
        Artifact.encode s = Artifact.encode Artifact.lineEnds := by
  obtain ⟨hback, -⟩ := exported_imports Artifact.lineEnds "js" bare furnished ["js"]
    Artifact.lineEnds_reachable (by decide) (by decide) (Disk.wellFormed_of_entries _ (by decide) rfl)
    bare_fresh
  exact ⟨Artifact.lineEnds_reachable, bare_fresh, hback (by decide)⟩

/-- One unit of the name of the index. -/
def indexNamed : Registry :=
  ⟨[⟨fileName, (Tree.empty "").close, ({} : Catalog).close⟩], true⟩

theorem indexNamed_reachable : indexNamed.Reachable :=
  .freeze _ (.add {} _ ⟨fileName, Tree.empty "", {}⟩ .empty (.empty _) .empty rfl)

/-- The unit meets all that is asked of it, and it is not exported. -/
theorem export_fails_indexNamed :
    indexNamed.Reachable ∧
    (∀ u ∈ indexNamed.units, ∀ category ∈ u.catalog.categories, ¬ Sidebar.IsShort category) ∧
    (∀ n ∈ indexNamed.names, Disk.Nameable n) ∧
    bare.disk.WellFormed ∧ Disk.Fresh bare.disk "js" furnished ["js"] ∧
    ∃ h', (exportTo "js" indexNamed).run bare =
      (.error (.disk (.refused .taken "/js/source-files.js" none)), h') := by
  have hformed : bare.disk.WellFormed := Disk.wellFormed_of_entries _ (by decide) rfl
  have hnames : ∀ u ∈ indexNamed.units, Disk.FileName u.name := by
    intro u hu
    rw [List.mem_singleton.mp hu]
    exact fileName_index
  obtain ⟨h', hrun⟩ := run_exportTo_taken bare.disk "js" furnished ["js"] bare_fresh hformed indexNamed
    hnames (by decide) (by decide) bare rfl
  exact ⟨indexNamed_reachable, by decide, by decide, hformed, bare_fresh, h', hrun⟩

end DocNavigation.Script
