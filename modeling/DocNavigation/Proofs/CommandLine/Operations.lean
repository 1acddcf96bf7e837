import DocNavigation.Build.Run
import DocNavigation.Proofs.Disk.Aside
import DocNavigation.Proofs.Settings.Stored

/-!
What commands do to files, on machines whose disks differ at places set aside. As long as none of
their paths comes by such a place, they come to the same.
-/

namespace DocNavigation

open Effect

variable {aside : Place → Prop} {d₀ d₀' : Disk}

namespace Disk

theorem Beside.bytes (d d' : Disk) (h : Beside aside d₀ d₀' d d') (path : String)
    (hclear : Clear aside d₀ path) : d'.bytes path = d.bytes path := by
  rw [Disk.bytes, Disk.bytes, h.readFile _ _ _ _ path hclear]

theorem Beside.readText (d d' : Disk) (h : Beside aside d₀ d₀' d d') (path : String)
    (hclear : Clear aside d₀ path) : d'.readText path = d.readText path := by
  rw [Disk.readText, Disk.readText, h.bytes d d' path hclear]

end Disk

namespace Act

theorem twins_readText (path : String) (hclear : Disk.Clear aside d₀ path) :
    Twins (Host.Beside aside d₀ d₀') Eq (look (·.readText path)) (look (·.readText path)) :=
  twins_look _ fun d d' h => h.readText d d' path hclear

end Act

namespace Artifact

theorem twins_write (r : Registry) (path : String)
    (hclear : Disk.Clear aside d₀ (d₀.absolute path)) :
    Twins (Host.Beside aside d₀ d₀') Eq (write r path) (write r path) := by
  refine Twins.bind_same (Disk.twins_replaceFile path _ _ hclear) fun written => ?_
  exact Twins.bind_same (Act.twins_note _ _) fun _ => twins_pure _ _ rfl

theorem twins_read (text : String) (source : Option String) :
    Twins (Host.Beside aside d₀ d₀') Eq (read text source) (read text source) :=
  Twins.bind_same (Act.twins_notes _ _) fun _ => Act.twins_lift _ _

theorem twins_load (path : String) (hclear : Disk.Clear aside d₀ path) :
    Twins (Host.Beside aside d₀ d₀') Eq (load path) (load path) :=
  Twins.bind_same (Act.twins_readText path hclear) fun _ => twins_read _ _

theorem twins_stream (path : String) (hclear : Disk.Clear aside d₀ path) :
    Twins (Host.Beside aside d₀ d₀') Eq (Act.look (streamOf · path)) (Act.look (streamOf · path)) :=
  Act.twins_look _ fun d d' h => by rw [streamOf, streamOf, h.bytes d d' path hclear]

theorem twins_openFile (path : String) (hclear : Disk.Clear aside d₀ path) :
    Twins (Host.Beside aside d₀ d₀') Eq (openFile path) (openFile path) := by
  refine Twins.bind_same (twins_stream path hclear) fun s => ?_
  split
  · split
    · exact Twins.bind_same (Act.twins_notes _ _) fun _ => Act.twins_lift _ _
    · exact Act.twins_lift _ _
  · exact Act.twins_lift _ _

theorem openFile_path (path : String) (h h' : Host) (r : Reader)
    (hopen : (openFile path).run h = (.ok r, h')) : r.path = path := by
  have hopened : ∀ first, Reader.opened path first = .ok r → r.path = path := by
    intro first hfirst
    unfold Reader.opened at hfirst
    split at hfirst
    · cases hfirst
    · split at hfirst
      · cases hfirst
      · split at hfirst
        · cases hfirst
        · rw [← Except.ok.inj hfirst]
  have hlast : ∀ s k, (Act.lift ((Reader.openStream path s).mapError Fault.ofReader)).run k =
      (.ok r, h') → r.path = path := by
    intro s k hk
    rw [Act.run_lift] at hk
    have hstream := (Result.mapError_eq_ok_iff _ _ _).mp (congrArg Prod.fst hk)
    unfold Reader.openStream at hstream
    split at hstream
    · exact hopened _ hstream
    · cases hstream
    · exact hopened _ hstream
  obtain ⟨s, k, -, hopen⟩ := (bind_eq_ok_iff _ _ _ _ _).mp hopen
  split at hopen
  · split at hopen
    · obtain ⟨_, k, -, hopen⟩ := (bind_eq_ok_iff _ _ _ _ _).mp hopen
      exact hlast s k hopen
    · exact hlast s k hopen
  · exact hlast s k hopen

theorem twins_getFrom (r : Reader) (name : String) (hclear : Disk.Clear aside d₀ r.path) :
    Twins (Host.Beside aside d₀ d₀') Eq (r.getFrom name) (r.getFrom name) := by
  unfold Reader.getFrom
  split
  · exact Twins.bind_same (twins_stream r.path hclear) fun s => Act.twins_lift _ _
  · exact twins_throw _

end Artifact

theorem Web.twins_fetch (url : String) (timeout : Int) :
    Twins (Host.Beside aside d₀ d₀') Eq (fetch url timeout) (fetch url timeout) := by
  refine Twins.bind twins_get fun h h' hb => ?_
  have hsent : ∀ r, Host.Beside aside d₀ d₀' { h with requests := h.requests ++ [r] }
      { h' with web := h.web, requests := h'.requests ++ [r] } :=
    fun r => ⟨hb.disk, hb.vars, hb.homes, rfl, by rw [hb.requests]⟩
  simp only [hb.web]
  refine Twins.bind_same (twins_set _ _ (hsent _)) fun _ => ?_
  exact Twins.bind_same (Act.twins_notes _ _) fun _ => twins_pure _ _ rfl

namespace Sources

theorem twins_isolate (source skipping : String) (a : Act (Except String Registry))
    (ha : Twins (Host.Beside aside d₀ d₀') Eq a a) :
    Twins (Host.Beside aside d₀ d₀') Eq (isolate source skipping a) (isolate source skipping a) := by
  refine Twins.bind_same (Act.twins_attempt _ a ha) fun r => ?_
  have hfailed : ∀ message, Twins (Host.Beside aside d₀ d₀') Eq
      (do
        Act.note (.warning s!"{skipping} '{source}': {message}")
        return .error ⟨source, message⟩ : Act (Except SourceFailure Registry))
      (do
        Act.note (.warning s!"{skipping} '{source}': {message}")
        return .error ⟨source, message⟩) :=
    fun message => Twins.bind_same (Act.twins_note _ _) fun _ => twins_pure _ _ rfl
  split
  · exact twins_pure _ _ rfl
  · exact hfailed _
  · split
    · exact hfailed _
    · exact twins_throw _

theorem twins_load (sources : List String)
    (hclear : ∀ s ∈ sources, Path.isRemote s = false → Disk.Clear aside d₀ s) :
    Twins (Host.Beside aside d₀ d₀') Eq (load sources) (load sources) := by
  refine Twins.bind_same (Twins.mapM _ _ sources fun s hs => ?_) fun _ => twins_pure _ _ rfl
  apply twins_isolate
  unfold loadAny
  split
  · refine Twins.bind_same (Web.twins_fetch s _) fun text => ?_
    split
    · exact twins_pure _ _ rfl
    · exact Twins.bind_same (Artifact.twins_read _ _) fun _ => twins_pure _ _ rfl
  · next hremote =>
    have hclear := hclear s hs (Bool.eq_false_iff.mpr hremote)
    exact Twins.bind_same (Artifact.twins_load s hclear) fun _ => twins_pure _ _ rfl

end Sources

theorem twins_mergeAll (sources : List Registry) (priority : String) :
    Twins (Host.Beside aside d₀ d₀') Eq (mergeAll sources priority) (mergeAll sources priority) := by
  unfold mergeAll
  split
  · exact twins_throw _
  · exact Twins.bind_same (Act.twins_notes _ _) fun _ => twins_pure _ _ rfl

theorem MergeFiles.twins_run (sources : List String) (output priority : String) (dryRun : Bool)
    (hsources : ∀ s ∈ sources, Path.isRemote s = false → Disk.Clear aside d₀ s)
    (houtput : dryRun = false → Disk.Clear aside d₀ (d₀.absolute output)) :
    Twins (Host.Beside aside d₀ d₀') Eq (run sources output priority dryRun)
      (run sources output priority dryRun) := by
  refine Twins.bind_same (Sources.twins_load sources hsources) fun loaded => ?_
  simp only
  split
  · exact twins_pure _ _ rfl
  refine Twins.bind_same (twins_mergeAll _ _) fun merged => ?_
  split
  · exact twins_pure _ _ rfl
  next hdry =>
  have hwrite : Twins (Host.Beside aside d₀ d₀') Eq (Artifact.write merged.1 output)
      (Artifact.write merged.1 output) :=
    Artifact.twins_write merged.1 output (houtput (by simpa using hdry))
  refine Twins.bind_same (Act.twins_attempt _ _ hwrite) fun r => ?_
  split
  · exact twins_pure _ _ rfl
  · split
    · exact twins_throw _
    · exact twins_pure _ _ rfl

namespace Script

theorem twins_exportTo (folder : String) (r : Registry)
    (hindex : Disk.Clear aside d₀ (d₀.absolute (Path.join folder fileName)))
    (hsidebars : ∀ u ∈ r.units, Disk.Clear aside d₀ (d₀.absolute (sidebarPath folder u.name))) :
    Twins (Host.Beside aside d₀ d₀') Eq (exportTo folder r) (exportTo folder r) := by
  refine Twins.bind_same (Disk.twins_replaceFile _ _ _ hindex) fun index => ?_
  refine Twins.bind_same (Twins.mapM _ _ r.units fun u hu =>
    Disk.twins_replaceFile _ _ _ (hsidebars u hu)) fun sidebars => ?_
  exact Twins.bind_same (Act.twins_note _ _) fun _ => twins_pure _ _ rfl

theorem twins_importCatalog (folder : Option String) (unit : String)
    (hclear : ∀ f, folder = some f → f ≠ "" → Disk.Clear aside d₀ (sidebarPath f unit)) :
    Twins (Host.Beside aside d₀ d₀') Eq (importCatalog folder unit) (importCatalog folder unit) := by
  unfold importCatalog
  split
  · exact twins_pure _ _ rfl
  next f hf =>
  obtain ⟨hfolder, hfull⟩ := Option.filter_eq_some_iff.mp hf
  have hclear := hclear f hfolder (of_decide_eq_true hfull)
  refine Twins.bind Act.twins_disk fun d d' h => ?_
  have hfile := h.isFile _ _ _ _ _ hclear
  simp only [hfile]
  split
  · exact Twins.bind_same (Act.twins_readText _ hclear) fun _ => Act.twins_lift _ _
  · exact Twins.bind_same (Act.twins_note _ _) fun _ => twins_pure _ _ rfl

/-- The units that a script tells of on a disk. -/
def namesOn (d : Disk) (path : String) : List String :=
  match d.readText path with
  | .error _ => []
  | .ok text =>
    match parse text (some path) with
    | .error _ => []
    | .ok trees => trees.map (·.1)

theorem importFrom_alike (path : String) (folder : Option String) (h h' : Host)
    (hb : Host.Beside aside d₀ d₀' h h') (hpath : Disk.Clear aside d₀ path)
    (hsidebars : ∀ f, folder = some f → f ≠ "" → ∀ name ∈ namesOn h.disk path,
      Disk.Clear aside d₀ (sidebarPath f name)) :
    Alike (Host.Beside aside d₀ d₀') Eq ((importFrom path folder).run h)
      ((importFrom path folder).run h') := by
  have htext : Alike (Host.Beside aside d₀ d₀')
      (fun text text' => text = text' ∧ h.disk.readText path = .ok text)
      ((Act.look (·.readText path)).run h) ((Act.look (·.readText path)).run h') := by
    refine (Act.twins_readText path hpath h h' hb).and _ fun text htext => ?_
    rw [Act.run_look] at htext
    exact htext
  refine htext.bind ?_
  rintro text _ ⟨rfl, hread⟩
  cases hparse : parse text (some path) with
  | error e => exact twins_throw _
  | ok trees =>
    have hnames : ∀ item ∈ trees, item.1 ∈ namesOn h.disk path := by
      intro item hitem
      rw [namesOn, hread]
      simp only [hparse]
      exact List.mem_map_of_mem hitem
    have htrees : Twins (Host.Beside aside d₀ d₀') (fun a b => a = trees ∧ b = trees)
        (pure trees : Act (List (String × Tree))) (pure trees) := twins_pure _ _ ⟨rfl, rfl⟩
    refine Twins.bind htrees ?_
    intro _ _ ⟨hfirst, hsecond⟩
    rw [hfirst, hsecond]
    refine Twins.bind_same (Twins.foldlM _ _ trees (fun r item hitem => ?_) _) fun r => ?_
    · refine Twins.bind_same (twins_importCatalog folder item.1 fun f hf hfull =>
        hsidebars f hf hfull _ (hnames item hitem)) fun c => ?_
      refine Twins.bind_same (Act.twins_lift _ _) fun r => ?_
      exact Twins.bind_same (Act.twins_note _ _) fun _ => twins_pure _ _ rfl
    · exact Twins.bind_same (Act.twins_note _ _) fun _ => twins_pure _ _ rfl

end Script

namespace Settings

/-- Two machines come by the same folder for the settings. -/
theorem userFolder_alike (h h' : Host) (hb : Host.Beside aside d₀ d₀' h h')
    (hclear : Disk.Clear aside d₀ (userFolderPath h.environment false)) :
    Alike (Host.Beside aside d₀ d₀') Eq ((userFolder false).run h) ((userFolder false).run h') := by
  have henv : h'.environment = h.environment := by
    rw [Host.environment, Host.environment, Host.workdir, Host.workdir, hb.disk.same.workdir,
      hb.vars, hb.homes]
  rw [userFolder, run_bind, run_bind, run_get, run_get]
  simp only [henv, hb.disk.same.absolute]
  have hfolders := Act.twins_attempt _ _ (Act.twins_change _
    (Disk.twins_makeFolders d₀ d₀' _ hclear))
  refine Twins.bind_same hfolders (fun r => ?_) h h' hb
  split
  · exact twins_pure _ _ rfl
  · split
    · exact twins_throw _
    · exact twins_pure _ _ rfl

/-- Whatever settings are loaded, loading does the same to both machines. -/
theorem load_alike (path : Option String) (h h' : Host) (hb : Host.Beside aside d₀ d₀' h h')
    (hclear : path.filter (· ≠ "") = none →
      Disk.Clear aside d₀ (userFolderPath h.environment false)) :
    Alike (Host.Beside aside d₀ d₀') (fun _ _ => True) ((load path).run h) ((load path).run h') := by
  have hpath : Alike (Host.Beside aside d₀ d₀') Eq ((pathOr path).run h) ((pathOr path).run h') := by
    unfold pathOr
    cases hgiven : path.filter (· ≠ "") with
    | some p => exact .ok p p h h' rfl hb
    | none =>
      refine (userFolder_alike h h' hb (hclear hgiven)).bind ?_
      rintro folder - rfl
      exact twins_pure _ _ rfl
  cases hp : (pathOr path).run h with
  | mk r k =>
    cases hp' : (pathOr path).run h' with
    | mk r' k' =>
      rw [hp, hp'] at hpath
      cases hpath with
      | error e _ _ hafter =>
        rw [load, run_bind, run_bind, run_get, run_get]
        simp only
        rw [run_bind, run_bind, hp, hp']
        exact .error e k k' hafter
      | ok p _ _ _ hsame hafter =>
        obtain ⟨notes, hload⟩ := run_load_at path p h k hp
        obtain ⟨notes', hload'⟩ := run_load_at path _ h' k' hp'
        rw [hload, hload']
        exact .ok _ _ _ _ trivial (hafter.journal _ _ k k' _ _)

end Settings

end DocNavigation
