import DocNavigation.Proofs.Build.Foretold

/-!
Builds and merges that fail. Files are written one after the other, each of them as a whole, so that
a failure keeps all that it did not come to, and leaves what was written before it.
-/

namespace DocNavigation

namespace Disk

/-- Some of the first of these files were put in their places and the next one failed. Folders may
have been made for it; a file that was there is there still, or has the text of one that was put in
its place. -/
structure Halted (d : Disk) (files done : List (String × String)) (d' : Disk) : Prop where
  stopped : ∃ next rest, files = done ++ next :: rest
  written : ∃ qs d₁, PutAt d done qs d₁ ∧ Gains d₁ d'
  kept : ∀ p bytes, d.at? p = some (.file bytes) → d'.at? p = some (.file bytes) ∨
    ∃ file ∈ done, d'.at? p = some (.file file.2.toUTF8)

theorem Halted.here (d d' : Disk) (file : String × String) (files : List (String × String))
    (h : Gains d d') : Halted d (file :: files) [] d' where
  stopped := ⟨file, files, rfl⟩
  written := ⟨[], d, .nil d, h⟩
  kept p _ hp := .inl (h.kept p _ hp)

theorem Halted.later (d d₁ d' : Disk) (path text : String) (q : Place)
    (files done : List (String × String))
    (hput : Replaced d d₁ (d.absolute path) text.toUTF8 q) (h : Halted d₁ files done d') :
    Halted d ((path, text) :: files) ((path, text) :: done) d' := by
  obtain ⟨next, rest, hfiles⟩ := h.stopped
  obtain ⟨qs, d₂, hdone, hgains⟩ := h.written
  refine ⟨⟨next, rest, by rw [hfiles, List.cons_append]⟩,
    ⟨q :: qs, d₂, .cons d d₁ d₂ path text done q qs hput hdone, hgains⟩, ?_⟩
  intro p bytes hp
  by_cases hpq : p = q
  · rcases h.kept p _ (hpq ▸ hput.written) with hsame | ⟨file, hfile, hnew⟩
    · exact .inr ⟨_, List.mem_cons_self, hsame⟩
    · exact .inr ⟨file, List.mem_cons_of_mem _ hfile, hnew⟩
  · rcases h.kept p bytes (hput.kept p _ hpq hp) with hsame | ⟨file, hfile, hnew⟩
    · exact .inl hsame
    · exact .inr ⟨file, List.mem_cons_of_mem _ hfile, hnew⟩

/-- A single file is all there or not there at all. -/
theorem Halted.gains (d d' : Disk) (file : String × String) (done : List (String × String))
    (h : Halted d [file] done d') : Gains d d' := by
  obtain ⟨next, rest, hfiles⟩ := h.stopped
  obtain ⟨qs, d₁, hdone, hgains⟩ := h.written
  cases done with
  | nil =>
    cases hdone
    exact hgains
  | cons first done => simp at hfiles

/-- One more file that is written, or the failure. -/
theorem halted_cons (path text : String) (files : List (String × String)) (h h' : Host)
    (hd : h.disk.WellFormed)
    (hrun : (∃ e, (replaceFile path text "utf-8").run h = (.error e, h')) ∨
      ∃ p h₁, (replaceFile path text "utf-8").run h = (.ok p, h₁) ∧
        (h₁.disk.WellFormed → ∃ done, Halted h₁.disk files done h'.disk)) :
    ∃ done, Halted h.disk ((path, text) :: files) done h'.disk := by
  rcases hrun with ⟨e, hrun⟩ | ⟨p, h₁, hrun, hrest⟩
  · exact ⟨[], .here _ _ _ _ (replaceFile_failed path text "utf-8" e h h' hd hrun).2⟩
  · obtain ⟨hp, d₁, bytes, q, rfl, hbytes, hput⟩ := replaceFile_ok path text "utf-8" p h h₁ hd hrun
    rw [encoded_utf8] at hbytes
    rw [hp, ← Except.ok.inj hbytes] at hput
    obtain ⟨done, hdone⟩ := hrest hput.wellFormed
    exact ⟨_, hdone.later _ _ _ path text q _ _ hput⟩

theorem halted_mapM {α : Type} (path text : α → String) (as : List α) (e : Fault) (h h' : Host)
    (hd : h.disk.WellFormed)
    (hrun : (as.mapM fun a => replaceFile (path a) (text a) "utf-8").run h = (.error e, h')) :
    ∃ done, Halted h.disk (as.map fun a => (path a, text a)) done h'.disk := by
  induction as generalizing h with
  | nil => cases hrun
  | cons a as ih =>
    rw [List.mapM_cons, Effect.bind_eq_error_iff] at hrun
    refine halted_cons _ _ _ h h' hd (hrun.imp (fun hfirst => ⟨e, hfirst⟩) ?_)
    rintro ⟨p, h₁, hfirst, hrun⟩
    refine ⟨p, h₁, hfirst, fun hd₁ => ih h₁ hd₁ ?_⟩
    rcases (Effect.bind_eq_error_iff _ _ _ _ _).mp hrun with hrest | ⟨_, _, _, hpure⟩
    · exact hrest
    · cases hpure

end Disk

theorem Artifact.write_failed (r : Registry) (path : String) (e : Fault) (h h' : Host)
    (hrun : (write r path).run h = (.error e, h')) :
    (Disk.replaceFile path (encode r) "utf-8").run h = (.error e, h') := by
  rw [run_write] at hrun
  split at hrun
  case h_1 => cases hrun
  case h_2 _ _ hreplace =>
    cases hrun
    exact hreplace

theorem Script.halted_exportTo (folder : String) (r : Registry) (e : Fault) (h h' : Host)
    (hd : h.disk.WellFormed) (hrun : (exportTo folder r).run h = (.error e, h')) :
    ∃ done, Disk.Halted h.disk (filesOf folder r) done h'.disk := by
  rw [exportTo, Effect.bind_eq_error_iff] at hrun
  refine Disk.halted_cons _ _ _ h h' hd (hrun.imp (fun hindex => ⟨e, hindex⟩) ?_)
  rintro ⟨p, h₁, hindex, hrun⟩
  refine ⟨p, h₁, hindex, fun hd₁ => Disk.halted_mapM _ _ _ e h₁ h' hd₁ ?_⟩
  rcases (Effect.bind_eq_error_iff _ _ _ _ _).mp hrun with hsidebars | ⟨_, _, _, hpure⟩
  · exact hsidebars
  · cases hpure

namespace Build

section
variable (plan : Plan) (output : String) (houtput : plan.output = some output) (r : Registry)
  (h h' : Host) (hd : h.disk.WellFormed)
include houtput hd

theorem halted_persist (e : Fault) (hrun : (persist plan r).run h = (.error e, h')) :
    ∃ done, Disk.Halted h.disk (filesOf output plan.scriptFolder r) done h'.disk := by
  rw [persist, houtput] at hrun
  simp only at hrun
  rw [Effect.bind_eq_error_iff] at hrun
  refine Disk.halted_cons _ _ _ h h' hd ?_
  rcases hrun with hwrite | ⟨written, h₁, hwrite, hrun⟩
  · exact .inl ⟨e, Artifact.write_failed r output e h h' hwrite⟩
  rw [Artifact.run_write] at hwrite
  split at hwrite
  case h_2 => cases hwrite
  case h_1 path h₂ hreplace =>
    cases hwrite
    refine .inr ⟨written, h₂, hreplace, fun hd₂ => ?_⟩
    rcases (Effect.bind_eq_error_iff _ _ _ _ _).mp hrun with hscripts | ⟨_, _, _, hpure⟩
    · rw [exportWanted] at hscripts
      by_cases hnone : plan.scriptFolder = ""
      · rw [if_pos hnone] at hscripts
        cases hscripts
      · rw [if_neg hnone] at hscripts ⊢
        have hhalted := fun hd => Script.halted_exportTo _ _ e _ h' hd hscripts
        exact hhalted hd₂
    · cases hpure

end

/-- A build that failed has written nothing, or the first of the files of its merge. -/
theorem halted_run (plan : Plan) (p : Priority) (hplan : Sensible plan p) (output : String)
    (houtput : plan.output = some output) (finishing : Arrangement)
    (hfinishing : ∀ ds, (finishing ds).Perm ds) (h h' : Host) (final : BuildResult)
    (hok : final.ok = false) (hd : h.disk.WellFormed)
    (hrun : (runArranged finishing plan false).run h = (.ok final, h')) :
    h'.disk = h.disk ∨ ∃ fresh done, Registry.ofUnits (scanned plan h) = .ok fresh ∧
      Disk.Halted h.disk (filesOf output plan.scriptFolder (merge (inputs plan h fresh) p).registry)
        done h'.disk := by
  obtain ⟨-, fresh, result, h₁, hfresh, hdisk, hresult, hconclude⟩ :=
    run_reached plan p hplan finishing hfinishing h h' final hrun
  rw [← hdisk] at hd ⊢
  rcases conclude_cases plan _ result h₁ final h' hconclude with
    ⟨-, rfl⟩ | ⟨hsame, -⟩ | ⟨-, e, h₂, hpersist, hafter⟩
  · exact .inl rfl
  · cases (hok.symm.trans hsame).trans hresult
  · obtain ⟨done, hdone⟩ := halted_persist plan output houtput _ h₁ h₂ hd e hpersist
    exact .inr ⟨fresh, done, hfresh, hafter ▸ hdone⟩

theorem run_dry (plan : Plan) (p : Priority) (hplan : Sensible plan p) (output : String)
    (houtput : plan.output = some output) (finishing : Arrangement)
    (hfinishing : ∀ ds, (finishing ds).Perm ds) (h : Host) (hd : h.disk.WellFormed) :
    ((runArranged finishing plan true).run h).2.disk = h.disk := by
  have hforetells := foretelling_runArranged plan rfl houtput rfl p hplan finishing finishing
    hfinishing hfinishing (fun _ : True => rfl) h h rfl hd
  generalize (runArranged finishing plan true).run h = dry at hforetells ⊢
  generalize (runArranged finishing plan false).run h = real at hforetells
  cases hforetells with
  | fault e h₁ _ _ hh _ => exact congrArg Prod.fst hh
  | refused predicted _ h₁ _ _ _ hh _ => exact congrArg Prod.fst hh
  | performed predicted r h₁ _ _ hh _ _ _ => exact congrArg Prod.fst hh

end Build

theorem leaves_mergeAll (sources : List Registry) (priority : String) :
    Act.Leaves Host.world (mergeAll sources priority) := by
  unfold mergeAll
  split
  · exact Act.leaves_throw _
  · exact Act.Leaves.bind _ _ (Act.leaves_notes Act.seesWeb_world.toSees _) fun _ =>
      Act.leaves_pure _

/-- A merge of files that failed has written nothing. -/
theorem MergeFiles.run_failed (sources : List String) (output priority : String) (dryRun : Bool)
    (h h' : Host) (final : BuildResult) (hok : final.ok = false) (hd : h.disk.WellFormed)
    (hrun : (run sources output priority dryRun).run h = (.ok final, h')) :
    Disk.Gains h.disk h'.disk := by
  rw [run, Effect.bind_eq_ok_iff] at hrun
  obtain ⟨loaded, h₁, hload, hrun⟩ := hrun
  have hworld := Sources.leaves_load sources h
  rw [hload] at hworld
  have hdisk : h₁.disk = h.disk := congrArg Prod.fst hworld
  by_cases hnone : loaded.registries.isEmpty = true
  · simp only [hnone, if_true] at hrun
    cases hrun
    exact hdisk ▸ .refl _
  simp only [hnone] at hrun
  obtain ⟨⟨r, report⟩, h₂, hmerge, hrun⟩ := (Effect.bind_eq_ok_iff _ _ _ _ _).mp hrun
  have hworld' := leaves_mergeAll loaded.registries priority h₁
  rw [hmerge] at hworld'
  have hdisk' : h₂.disk = h.disk := (congrArg Prod.fst hworld').trans hdisk
  cases dryRun with
  | true =>
    cases hrun
    cases hok
  | false =>
    simp only [Bool.false_eq_true, if_false] at hrun
    rw [run_finish] at hrun
    split at hrun
    · cases hrun
      cases hok
    · next e h₃ hwrite =>
      have hreplace := Artifact.write_failed r output e h₂ h₃ hwrite
      split at hrun
      · cases hrun
        rw [← hdisk'] at hd ⊢
        exact (Disk.replaceFile_failed _ _ _ e h₂ _ hd hreplace).2
      · cases hrun

namespace Build

/-- What is left of the disk when a build or a merge reports a failure. A build of checked settings
has written nothing, or the first of the files of its merge, each as a whole, in their order. So
nothing is lost unless scripts are wanted. A merge of files that fails never loses anything. -/
theorem failed_keeps :
    (∀ (env : Environment) (strict : Bool) (config : Json) (s : Settings) (ws : List Warning),
      Settings.check env strict config = .ok (s, ws) →
      ∀ (finishing : Arrangement), (∀ ds, (finishing ds).Perm ds) →
      ∀ (dryRun : Bool) (h h' : Host) (final : BuildResult), h.disk.WellFormed →
      (runArranged finishing (.ofSettings s) dryRun).run h = (.ok final, h') → final.ok = false →
      (h'.disk = h.disk ∨ dryRun = false ∧ ∃ fresh done,
        Registry.ofUnits (scanned (.ofSettings s) h) = .ok fresh ∧
        Disk.Halted h.disk (filesOf s.outputPath s.scriptFolder
          (merge (inputs (.ofSettings s) h fresh) s.priority).registry) done h'.disk) ∧
      (s.scriptFolder = "" → Disk.Gains h.disk h'.disk)) ∧
    ∀ (sources : List String) (output priority : String) (dryRun : Bool) (h h' : Host)
      (final : BuildResult), h.disk.WellFormed →
      (MergeFiles.run sources output priority dryRun).run h = (.ok final, h') → final.ok = false →
      Disk.Gains h.disk h'.disk := by
  refine ⟨?_, fun sources output priority dryRun h h' final hd hrun hok =>
    MergeFiles.run_failed sources output priority dryRun h h' final hok hd hrun⟩
  intro env strict config s ws hcheck finishing hfinishing dryRun h h' final hd hrun hok
  have hgains : ∀ d', d' = h.disk → Disk.Gains h.disk d' := fun d' hdisk => hdisk ▸ .refl h.disk
  by_cases hnone : s.sourceRoots.isEmpty ∧ s.mergeWith.isEmpty
  · have hsame : h'.disk = h.disk := by
      have hempty : runArranged finishing (.ofSettings s) dryRun = pure (.failure
          "Nothing to build: no source roots and no artifacts to merge." [] []) := if_pos hnone
      rw [hempty] at hrun
      cases hrun
      rfl
    exact ⟨.inl hsame, fun _ => hgains _ hsame⟩
  have hplan := sensible_of_settings env strict config s ws hcheck hnone
  cases dryRun with
  | true =>
    have hsame := run_dry (.ofSettings s) s.priority hplan s.outputPath rfl finishing hfinishing h hd
    rw [hrun] at hsame
    exact ⟨.inl hsame, fun _ => hgains _ hsame⟩
  | false =>
    rcases halted_run (.ofSettings s) s.priority hplan s.outputPath rfl finishing hfinishing h h' final
      hok hd hrun with hsame | ⟨fresh, done, hfresh, hdone⟩
    · exact ⟨.inl hsame, fun _ => hgains _ hsame⟩
    · refine ⟨.inr ⟨rfl, fresh, done, hfresh, hdone⟩, fun hscripts => ?_⟩
      have hone : (Plan.ofSettings s).scriptFolder = "" := hscripts
      rw [filesOf, if_pos hone] at hdone
      exact hdone.gains _ _ _ _

/-- A machine with sources, an old output, and a file where the folder of the scripts is to be. -/
def blocked : Host :=
  { disk :=
    { workdir := []
      entries := [(["c"], .file .empty), (["js"], .file oneUnit), (["s"], .folder)] } }

/-- The same machine with a new output. -/
def blockedLater : Host :=
  { disk :=
    { workdir := []
      entries := [(["c"], .file oneUnit), (["js"], .file oneUnit), (["s"], .folder)] } }

def blockedConfig : Json :=
  .obj [("source_roots", .obj [("u", .str "s")]), ("output_path", .str "c"),
    ("legacy_export_dir", .str "js"), ("exclude_patterns", .strings [])]

def blockedSettings : Settings :=
  { Settings.usual "/" with
    sourceRoots := [("u", "/s")]
    outputPath := "/c"
    scriptFolder := "/js"
    excluded := [] }

theorem blocked_built :
    told ((runArranged id (.ofSettings blockedSettings) false).run blocked) =
      (some (false, "", []), blockedLater.disk) := by decide +kernel

theorem failed_keeps_blocked : ∃ (final merged : BuildResult) (h' k' : Host),
    (runArranged id (.ofSettings blockedSettings) false).run blocked = (.ok final, h') ∧
      final.ok = false ∧ (∃ r done, Disk.Halted blocked.disk (filesOf "/c" "/js" r) done h'.disk) ∧
    (MergeFiles.run ["js"] "js/b" Priority.lastWins.word false).run blocked = (.ok merged, k') ∧
      merged.ok = false ∧ Disk.Gains blocked.disk k'.disk := by
  have hd : blocked.disk.WellFormed := Disk.wellFormed_of_entries _ (by decide) rfl
  obtain ⟨hbuilds, hmerges⟩ := failed_keeps
  obtain ⟨final, h', hrun, hok, -, -, hdisk⟩ := exists_of_told _ _ _ _ _ blocked_built
  obtain ⟨merged, k', hmerge, hmerged, -, -, -⟩ := exists_of_told
    ((MergeFiles.run ["js"] "js/b" Priority.lastWins.word false).run blocked) false "" []
    blocked.disk (by decide +kernel)
  have hcheck : Settings.check blocked.environment false blockedConfig =
      .ok (blockedSettings, []) := by decide +kernel
  obtain ⟨hkeeps, -⟩ := hbuilds _ false blockedConfig blockedSettings [] hcheck id
    (fun _ => .refl _) false blocked h' final hd hrun hok
  refine ⟨final, merged, h', k', hrun, hok, ?_, hmerge, hmerged,
    hmerges ["js"] "js/b" _ false blocked k' merged hd hmerge hmerged⟩
  rcases hkeeps with hsame | ⟨-, fresh, done, -, hdone⟩
  · rw [hdisk] at hsame
    exact absurd hsame (by decide +kernel)
  · exact ⟨_, done, hdone⟩

/-- The artifact is replaced although the build fails, since the scripts come after it. -/
theorem failed_build_replaces :
    Settings.check blocked.environment false blockedConfig = .ok (blockedSettings, []) ∧
      told ((runArranged id (.ofSettings blockedSettings) false).run blocked) =
        (some (false, "", []), blockedLater.disk) ∧
      blocked.disk.readFile "/c" = .ok .empty ∧ blockedLater.disk.readFile "/c" = .ok oneUnit := by
  refine ⟨?_, blocked_built, ?_, ?_⟩
  · decide +kernel
  · decide +kernel
  · decide +kernel

end Build

end DocNavigation
