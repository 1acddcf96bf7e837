import DocNavigation.Proofs.Build.Written
import DocNavigation.Proofs.Merge.Staged
import DocNavigation.Proofs.Merge.Files
import DocNavigation.Proofs.Settings.Checked

/-!
Builds that take their own output in. A build that is run again merges what it wrote in place of
what was there before, and writes the same bytes.
-/

namespace DocNavigation.Build

/-- The machine on which a build is run again: nothing was taken off its disk since and the output is
as it was written. The roots scan to the same units as before the first run, and all sources but the
output load as the same registries. -/
structure Again (s : Settings) (first : BuildResult) (h h' k : Host) : Prop where
  wellFormed : k.disk.WellFormed
  stands : h'.disk.Stands k.disk
  output : k.disk.readFile first.artifactPath = h'.disk.readFile first.artifactPath
  units : scanned (.ofSettings s) k = scanned (.ofSettings s) h
  sources : ∀ source ∈ s.mergeWith, source ≠ s.outputPath →
    Sources.loaded? k source = Sources.loaded? h source

/-- What one of the inputs of a merge gives: a source, or after them all the units of the scan. -/
def input? (h : Host) (fresh : Registry) : Option String → Option Registry
  | some source => Sources.loaded? h source
  | none => some fresh.freeze

theorem inputs_eq (plan : Plan) (h : Host) (fresh : Registry) :
    inputs plan h fresh = (plan.mergeWith.map some ++ [none]).filterMap (input? h fresh) := by
  have hlast : [none].filterMap (input? h fresh) = [fresh.freeze] := by
    rw [List.filterMap_cons, input?]
    rfl
  rw [List.filterMap_append, List.filterMap_map, hlast, inputs]
  simp only [Function.comp_def, input?]

/-- The merge can stand in for one of the sources that it was made from. -/
theorem merge_inputs (plan : Plan) (p : Priority) (fresh : Registry) (output : String) (h k : Host)
    (houtput : Sources.loaded? k output = some (merge (inputs plan h fresh) p).registry)
    (hothers : ∀ source ∈ plan.mergeWith, source ≠ output →
      Sources.loaded? k source = Sources.loaded? h source) :
    (merge (inputs plan k fresh) p).registry = (merge (inputs plan h fresh) p).registry := by
  rw [inputs_eq plan h] at houtput ⊢
  rw [inputs_eq plan k]
  apply Merge.merge_feedback
  intro source? hsource
  rcases List.mem_append.mp hsource with hsource | hsource
  · obtain ⟨source, hmem, rfl⟩ := List.mem_map.mp hsource
    rw [input?, input?]
    by_cases hout : source = output
    · rw [hout]
      exact .inr houtput
    · exact .inl (hothers source hmem hout)
  · rw [List.mem_singleton.mp hsource, input?, input?]
    exact .inl rfl

theorem inputs_sound (plan : Plan) (h : Host) (fresh : Registry)
    (hfresh : Registry.ofUnits (scanned plan h) = .ok fresh) :
    ∀ r ∈ inputs plan h fresh, r.Sound := by
  intro r hr
  rcases List.mem_append.mp hr with hr | hr
  · obtain ⟨source, -, hloaded⟩ := List.mem_filterMap.mp hr
    exact Sources.loaded?_sound h source r hloaded
  · have hsound := Registry.ofUnits_sound _ fresh (scanned_built plan h) hfresh
    rw [List.mem_singleton.mp hr]
    exact ⟨hsound.distinct, hsound.units⟩

/-- A file that holds a merge loads as the merge. -/
theorem loaded?_merged (k : Host) (output : String) (rs : List Registry) (p : Priority)
    (hrs : ∀ r ∈ rs, r.Sound) (hrooted : Path.isRooted output = true)
    (hread : k.disk.readFile output = .ok (Artifact.encode (merge rs p).registry).toUTF8) :
    Sources.loaded? k output = some (merge rs p).registry := by
  have hholds : Sources.Holds k.disk output (merge rs p).registry :=
    ⟨Path.isRemote_of_isRooted output hrooted, _,
      Artifact.readText_encode k.disk output _ (MergeFiles.merged_wellFormed rs p hrs) hread,
      MergeFiles.decode_merged rs p _ hrs⟩
  obtain ⟨k₁, hload, -⟩ := Sources.run_loadAny output _ k hholds
  rw [Sources.loaded?, hload]
  rfl

theorem sensible_of_settings (env : Environment) (strict : Bool) (config : Json) (s : Settings)
    (ws : List Warning) (hcheck : Settings.check env strict config = .ok (s, ws))
    (hsome : ¬ (s.sourceRoots.isEmpty ∧ s.mergeWith.isEmpty)) :
    Sensible (.ofSettings s) s.priority where
  some := hsome
  roots := (Settings.check_checked env strict config s ws hcheck).roots
  workers := by
    intro w hw
    simp only [Plan.ofSettings] at hw
    split at hw
    · cases hw
    · cases hw
      omega
  priority := rfl

theorem sensible_of_check (env : Environment) (strict : Bool) (config : Json) (s : Settings)
    (ws : List Warning) (hcheck : Settings.check env strict config = .ok (s, ws))
    (hsome : s.mergeWith ≠ []) : Sensible (.ofSettings s) s.priority :=
  sensible_of_settings env strict config s ws hcheck fun ⟨_, hnone⟩ =>
    hsome (List.isEmpty_iff.mp hnone)

/-- Rebuilding changes nothing. The settings were checked and name the output among the sources; no
script went over the artifact, and the folders of all files that were written can still be reached.
Then the second run goes well too and writes the same bytes, in whatever order the workers finish. -/
theorem rebuild_same (env : Environment) (henv : Path.isRooted env.workdir = true) (strict : Bool)
    (config : Json) (s : Settings) (ws : List Warning)
    (hcheck : Settings.check env strict config = .ok (s, ws))
    (hfeedback : s.outputPath ∈ s.mergeWith) (f g : Arrangement) (hf : ∀ ds, (f ds).Perm ds)
    (hg : ∀ ds, (g ds).Perm ds) (h h' k : Host) (first : BuildResult) (hd : h.disk.WellFormed)
    (hfirst : (runArranged f (.ofSettings s) false).run h = (.ok first, h'))
    (hok : first.ok = true)
    (hways : ∀ path ∈ first.artifactPath :: first.scripts,
      h'.disk.isFolder (Path.folder path) = true)
    (hscripts : ∀ path ∈ first.scripts,
      h'.disk.find true path ≠ h'.disk.find true first.artifactPath)
    (hagain : Again s first h h' k) :
    ∃ second k' bytes, (runArranged g (.ofSettings s) false).run k = (.ok second, k') ∧
      second.ok = true ∧ second.artifactPath = first.artifactPath ∧
      second.scripts = first.scripts ∧
      h'.disk.readFile first.artifactPath = .ok bytes ∧
      k'.disk.readFile second.artifactPath = .ok bytes := by
  have hsome : s.mergeWith ≠ [] := List.ne_nil_of_mem hfeedback
  have hplan := sensible_of_check env strict config s ws hcheck hsome
  obtain ⟨text, houtput⟩ := (Settings.check_checked env strict config s ws hcheck).output hsome
  obtain ⟨names, hplain⟩ := Path.absolute_plain env.workdir text henv
  have hrooted : Path.isRooted s.outputPath = true := houtput ▸ Path.Plain.isRooted _ names hplain
  obtain ⟨hreadable, fresh, hfresh, hsize, hwrote⟩ :=
    run_ok (.ofSettings s) s.priority hplan s.outputPath rfl f hf h h' first hok hd hfirst
  -- the path of the output is in its normal form, and so it is the path that is read
  have hpath : first.artifactPath = s.outputPath := by
    cases hwrote with
    | cons _ d₁ _ _ _ _ _ _ hrun _ =>
      rw [(Disk.replaceFile_one h.disk d₁ hd _ _ _ hrun).1, houtput]
      exact Path.absolute_absolute _ _ _ henv
  have hsound := inputs_sound (.ofSettings s) h fresh hfresh
  obtain ⟨hread, d', hwrote', hread'⟩ := hwrote.again h.disk h'.disk _ _ _ _ _ hd hways hscripts
    k.disk hagain.wellFormed hagain.stands
  have hload : Sources.loaded? k s.outputPath =
      some (merge (inputs (.ofSettings s) h fresh) s.priority).registry := by
    apply loaded?_merged k s.outputPath _ s.priority hsound hrooted
    rw [← hpath, hagain.output, hread]
  have hmerge := merge_inputs (.ofSettings s) s.priority fresh s.outputPath h k hload hagain.sources
  rw [← hagain.units] at hfresh
  rw [← hmerge] at hsize
  rw [← filesOf, ← hmerge] at hwrote'
  obtain ⟨second, k', hsecond, hok', hartifact, hfiles, hdisk⟩ :=
    run_of_wrote (.ofSettings s) s.priority hplan s.outputPath rfl g hg k hreadable fresh hfresh hsize
      _ _ d' hwrote'
  refine ⟨second, k', _, hsecond, hok', hartifact, hfiles, hread, ?_⟩
  rw [hartifact, hdisk]
  exact hread'

/-- What a build came to and what it left on the disk. -/
def told (x : Except Fault BuildResult × Host) : Option (Bool × String × List String) × Disk :=
  (x.1.toOption.map fun r => (r.ok, r.artifactPath, r.scripts), x.2.disk)

theorem exists_of_told (x : Except Fault BuildResult × Host) (ok : Bool) (path : String)
    (scripts : List String) (d : Disk) (h : told x = (some (ok, path, scripts), d)) :
    ∃ r h', x = (.ok r, h') ∧ r.ok = ok ∧ r.artifactPath = path ∧ r.scripts = scripts ∧
      h'.disk = d := by
  obtain ⟨result, h'⟩ := x
  obtain ⟨hresult, hdisk⟩ := Prod.mk.inj h
  cases result with
  | error e => cases hresult
  | ok r =>
    cases hresult
    exact ⟨r, h', rfl, rfl, rfl, rfl, hdisk⟩

/-- One unit without files, as it is written. -/
def oneUnit : ByteArray :=
  (Artifact.encode ⟨[⟨"u", (Tree.empty "").close, ({} : Catalog).close⟩], true⟩).toUTF8

/-- A machine with one folder of sources. -/
def village : Host :=
  { disk := { workdir := [], entries := [(["s"], .folder)] } }

/-- The same machine with an artifact. -/
def villageLater : Host :=
  { disk := { workdir := [], entries := [(["c"], .file oneUnit), (["s"], .folder)] } }

def villageConfig : Json :=
  .obj [("source_roots", .obj [("u", .str "s")]), ("output_path", .str "c"),
    ("merge_with", .strings ["a", "c"]), ("exclude_patterns", .strings [])]

def villageSettings : Settings :=
  { Settings.usual "/" with
    sourceRoots := [("u", "/s")]
    outputPath := "/c"
    mergeWith := ["/a", "/c"]
    excluded := [] }

theorem village_built :
    told ((runArranged id (.ofSettings villageSettings) false).run village) =
      (some (true, "/c", []), villageLater.disk) := by decide +kernel

theorem rebuild_same_village : ∃ (first second : BuildResult) (h' k' : Host) (bytes : ByteArray),
    (runArranged id (.ofSettings villageSettings) false).run village = (.ok first, h') ∧
    (runArranged List.reverse (.ofSettings villageSettings) false).run villageLater =
      (.ok second, k') ∧ second.ok = true ∧ second.artifactPath = "/c" ∧
    h'.disk.readFile "/c" = .ok bytes ∧ k'.disk.readFile "/c" = .ok bytes := by
  obtain ⟨first, h', hfirst, hok, hpath, hscripts, hdisk⟩ := exists_of_told _ _ _ _ _ village_built
  have hcheck : Settings.check village.environment true villageConfig =
      .ok (villageSettings, []) := by decide +kernel
  have hagain : Again villageSettings first village h' villageLater := by
    refine ⟨Disk.wellFormed_of_entries _ (by decide) rfl, ?_, ?_, by decide +kernel, ?_⟩
    · rw [hdisk]
      exact Disk.Stands.refl _
    · rw [hdisk]
    · intro source hsource hother
      rcases List.mem_cons.mp hsource with rfl | hsource
      · decide +kernel
      · exact absurd (List.mem_singleton.mp hsource) hother
  obtain ⟨second, k', bytes, hsecond, hok', hpath', -, hread, hread'⟩ :=
    rebuild_same village.environment (by decide) true villageConfig villageSettings [] hcheck
      (by decide) id List.reverse (fun _ => .refl _) List.reverse_perm village h' villageLater first
      (Disk.wellFormed_of_entries _ (by decide) rfl) hfirst hok
      (by rw [hpath, hscripts, hdisk]; decide +kernel) (by rw [hscripts]; exact nofun) hagain
  rw [hpath] at hpath' hread
  rw [hpath'] at hread'
  exact ⟨first, second, h', k', bytes, hfirst, hsecond, hok', hpath', hread, hread'⟩

/-- The last name on the way to the output is a link back to its own folder. -/
def crossing : Host :=
  { disk :=
      { workdir := []
        entries := [(["s"], .folder), (["x"], .folder), (["x", "s"], .link ".")] } }

/-- The same machine with an artifact where the link was. -/
def crossed : Host :=
  { disk :=
      { workdir := []
        entries := [(["x", "s"], .file oneUnit), (["s"], .folder), (["x"], .folder)] } }

def crossingConfig : Json :=
  .obj [("source_roots", .obj [("u", .str "s")]), ("output_path", .str "x/s/s"),
    ("merge_with", .strings ["x/s/s"]), ("exclude_patterns", .strings [])]

def crossingSettings : Settings :=
  { Settings.usual "/" with
    sourceRoots := [("u", "/s")]
    outputPath := "/x/s/s"
    mergeWith := ["/x/s/s"]
    excluded := [] }

/-- A file that replaces a link on the way to it can neither be read nor replaced again: the first
run goes well and the second, with the same units, does not. -/
theorem rebuild_fails_crossing :
    crossing.disk.WellFormed ∧
    Settings.check crossing.environment true crossingConfig = .ok (crossingSettings, []) ∧
    crossingSettings.outputPath ∈ crossingSettings.mergeWith ∧
    crossingSettings.scriptFolder = "" ∧
    told ((runArranged id (.ofSettings crossingSettings) false).run crossing) =
      (some (true, "/x/s/s", []), crossed.disk) ∧
    scanned (.ofSettings crossingSettings) crossed = scanned (.ofSettings crossingSettings) crossing ∧
    told ((runArranged id (.ofSettings crossingSettings) false).run crossed) =
      (some (false, "", []), crossed.disk) := by
  refine ⟨Disk.wellFormed_of_entries _ (by decide) rfl, ?_, by decide, rfl, ?_, ?_, ?_⟩
  · decide +kernel
  · decide +kernel
  · decide +kernel
  · decide +kernel

end DocNavigation.Build
