import DocNavigation.Proofs.Build.Again

/-!
Dry runs. Builds and merges read all that they read before they write anything, so that the run that
only tells what would become of them takes the same course up to there.
-/

namespace DocNavigation

namespace BuildResult

/-- A summary as a run tells it that writes. -/
def performed (summary : List (String × Json)) : List (String × Json) :=
  summary.map fun entry => if entry.1 = "dry_run" then (entry.1, .bool false) else entry

theorem performed_told (dryRun : Bool) (counts : List (String × Json))
    (hcounts : ∀ count ∈ counts, count.1 ≠ "dry_run") :
    performed (("dry_run", .bool dryRun) :: counts) = ("dry_run", .bool false) :: counts := by
  rw [performed, List.map_cons, if_pos rfl,
    List.map_congr_left fun count hcount => if_neg (hcounts count hcount), List.map_id']

/-- A result as it was predicted. The failures are listed as the workers finish, and so in the same
order only if these finish in the same order. -/
structure Foretold (inOrder : Prop) (predicted actual : BuildResult) : Prop where
  ok : actual.ok = predicted.ok
  error : actual.error = predicted.error
  units : actual.units = predicted.units
  replaced : actual.replaced = predicted.replaced
  failures : actual.failures.Perm predicted.failures
  ordered : inOrder → actual.failures = predicted.failures
  summary : actual.summary = performed predicted.summary

end BuildResult

namespace Build

open BuildResult (performed_told)

/-- The artifact of a registry was put at some place, and unless another of the files was put there
since, it can be decoded again: from its place, and from its path if the folder of the path can
still be reached. -/
def Published (r : Registry) (files : List (String × String)) (path : String) (d d' : Disk) :
    Prop :=
  ∃ q qs, d.PutAt files (q :: qs) d' ∧ (q ∉ qs →
    (∃ text, d'.at? q = some (.file text.toUTF8) ∧
      ∀ source, Artifact.decode text source = .ok r) ∧
    (d'.isFolder (Path.folder path) = true →
      ∀ k : Host, k.disk = d' → ∃ k', (Artifact.load path).run k = (.ok r, k')))

/-- What a dry run tells of the run that writes, both from machines with this disk and this network:
that a source stops them whose path no file can have, the result where nothing is to be written, or
else the registry whose files are written. Then the prediction comes true if the files can be
written, and only then can the run go well. -/
inductive Foretells (inOrder : Prop) (sources : List String) (output scriptFolder : String)
    (world : Disk × Web) :
    Except Fault BuildResult × Host → Except Fault BuildResult × Host → Prop
  | fault (e : Fault) (h k : Host) (hsource : ∃ source ∈ sources, ¬ Sources.IsReadable source)
    (hh : h.world = world) (hk : k.world = world) :
    Foretells inOrder sources output scriptFolder world (.error e, h) (.error e, k)
  | refused (predicted actual : BuildResult) (h k : Host) (hok : predicted.ok = false)
    (hactual : predicted.Foretold inOrder actual) (hh : h.world = world) (hk : k.world = world) :
    Foretells inOrder sources output scriptFolder world (.ok predicted, h) (.ok actual, k)
  | performed (predicted : BuildResult) (r : Registry) (h : Host)
    (real : Except Fault BuildResult × Host) (hok : predicted.ok = true) (hh : h.world = world)
    (hunits : r.names = predicted.units)
    (hwrites : ∀ path scripts d',
      world.1.Wrote (filesOf output scriptFolder r) (path :: scripts) d' →
      ∃ actual k, real = (.ok actual, k) ∧ predicted.Foretold inOrder actual ∧
        actual.artifactPath = path ∧ actual.scripts = scripts ∧ k.disk = d' ∧
        Published r (filesOf output scriptFolder r) path world.1 d')
    (hwrote : ∀ actual k, real = (.ok actual, k) → actual.ok = true →
      world.1.Wrote (filesOf output scriptFolder r) (actual.artifactPath :: actual.scripts)
        k.disk) :
    Foretells inOrder sources output scriptFolder world (.ok predicted, h) real

/-- An operation that tells what another one does. -/
def Foretelling (inOrder : Prop) (sources : List String) (output scriptFolder : String)
    (dry real : Act BuildResult) : Prop :=
  ∀ h k : Host, h.world = k.world → h.disk.WellFormed →
    Foretells inOrder sources output scriptFolder h.world (dry.run h) (real.run k)

section
variable {inOrder : Prop} {sources : List String} {output scriptFolder : String}

theorem foretelling_refused (predicted actual : BuildResult) (hok : predicted.ok = false)
    (hactual : predicted.Foretold inOrder actual) :
    Foretelling inOrder sources output scriptFolder (pure predicted) (pure actual) :=
  fun h k heq _ => .refused predicted actual h k hok hactual rfl heq.symm

section
variable {α : Type} (f g : α → Act BuildResult)

/-- Before anything is written, both operations only read, and only sources can stop them. -/
theorem Foretelling.bind (x : Act α) (P : α → Prop) (hx : Act.Leaves Host.world x)
    (honly : Act.Only Host.world x) (hP : ∀ h h' v, x.run h = (.ok v, h') → P v)
    (hstops : ∀ h h' e, x.run h = (.error e, h') → ∃ source ∈ sources, ¬ Sources.IsReadable source)
    (hfg : ∀ v, P v → Foretelling inOrder sources output scriptFolder (f v) (g v)) :
    Foretelling inOrder sources output scriptFolder (x >>= f) (x >>= g) := by
  intro h k heq hd
  obtain ⟨hresult, hafter⟩ := honly h k heq
  have hh := hx h
  rw [Effect.run_bind, Effect.run_bind]
  cases hxh : x.run h with
  | mk r h₁ =>
    cases hxk : x.run k with
    | mk s k₁ =>
      rw [hxh] at hresult hafter hh
      rw [hxk] at hresult hafter
      simp only at hresult hafter hh
      subst hresult
      cases r with
      | ok v =>
        have hdisk : h₁.disk = h.disk := congrArg Prod.fst hh
        have hnext := hfg v (hP h h₁ v hxh) h₁ k₁ hafter (hdisk ▸ hd)
        rw [hh] at hnext
        exact hnext
      | error e => exact .fault e h₁ k₁ (hstops h h₁ e hxh) hh (hafter.symm.trans hh)

/-- Some of the steps do no more than to write in the journal, each its own notes. -/
theorem Foretelling.bind_noted (x y : Act α) (v w : α) (ns ms : List Note)
    (hx : ∀ h : Host, x.run h = (.ok v, { h with journal := h.journal ++ ns }))
    (hy : ∀ k : Host, y.run k = (.ok w, { k with journal := k.journal ++ ms }))
    (hfg : Foretelling inOrder sources output scriptFolder (f v) (g w)) :
    Foretelling inOrder sources output scriptFolder (x >>= f) (y >>= g) := by
  intro h k heq hd
  rw [Effect.run_bind, Effect.run_bind, hx, hy]
  exact hfg { h with journal := h.journal ++ ns } { k with journal := k.journal ++ ms } heq hd

end

theorem Foretelling.bind_load (f g : Loaded → Act BuildResult)
    (hfg : ∀ loaded : Loaded, (∀ r ∈ loaded.registries, r.Sound) →
      Foretelling inOrder sources output scriptFolder (f loaded) (g loaded)) :
    Foretelling inOrder sources output scriptFolder (Sources.load sources >>= f)
      (Sources.load sources >>= g) := by
  apply Foretelling.bind f g _ (fun loaded : Loaded => ∀ r ∈ loaded.registries, r.Sound)
    (Sources.leaves_load _) (Sources.only_load Act.seesWeb_world _) (Sources.load_sound _) _ hfg
  intro h h' e hrun
  by_contra hnone
  have hreadable : ∀ source ∈ sources, Sources.IsReadable source := fun source hsource =>
    by_contra fun hunreadable => hnone ⟨source, hsource, hunreadable⟩
  obtain ⟨loaded, h₁, hload, -⟩ := Sources.run_load_readable sources hreadable h
  rw [hload] at hrun
  cases hrun

/-- A merged registry that is written first is published. -/
theorem published_of_wrote (rs : List Registry) (p : Priority) (hrs : ∀ r ∈ rs, r.Sound)
    (path : String) (scripts : List String) (d d' : Disk) (hd : d.WellFormed)
    (hwrote : d.Wrote (filesOf output scriptFolder (merge rs p).registry) (path :: scripts) d') :
    Published (merge rs p).registry (filesOf output scriptFolder (merge rs p).registry) path d
      d' := by
  have hdecode := fun source => MergeFiles.decode_merged rs p source hrs
  obtain ⟨q, qs, hput, hfirst⟩ := Disk.Wrote.first_put _ _ _ _ _ _ _ hwrote hd
  refine ⟨q, qs, hput, fun hother => ?_⟩
  obtain ⟨hplace, hread⟩ := hfirst hother
  refine ⟨⟨_, hplace, hdecode⟩, ?_⟩
  intro hfolder k hk
  have htext := Artifact.readText_encode k.disk path _ (MergeFiles.merged_wellFormed rs p hrs)
    (hk ▸ hread hfolder)
  exact ⟨_, Artifact.run_load path _ _ k htext (hdecode _)⟩

/-- The last step: one run gives its result, and the other writes the merged registry. -/
theorem foretelling_performed (rs : List Registry) (p : Priority) (hrs : ∀ r ∈ rs, r.Sound)
    (predicted result : BuildResult) (finish : Act BuildResult) (hok : predicted.ok = true)
    (hunits : (merge rs p).registry.names = predicted.units)
    (hresult : predicted.Foretold inOrder result)
    (hfinish : ∀ (k : Host) path scripts d',
      k.disk.Wrote (filesOf output scriptFolder (merge rs p).registry) (path :: scripts) d' →
      ∃ k', finish.run k =
        (.ok { result with artifactPath := path, scripts := scripts }, k') ∧ k'.disk = d')
    (hwrote : ∀ (k k' : Host) final, k.disk.WellFormed → finish.run k = (.ok final, k') →
      final.ok = true → k.disk.Wrote (filesOf output scriptFolder (merge rs p).registry)
        (final.artifactPath :: final.scripts) k'.disk) :
    Foretelling inOrder sources output scriptFolder (pure predicted) finish := by
  intro h k heq hd
  have hdisk : k.disk = h.disk := congrArg Prod.fst heq.symm
  refine .performed predicted (merge rs p).registry h _ hok rfl hunits ?_ ?_
  · intro path scripts d' hfiles
    obtain ⟨k', hrun, hk'⟩ := hfinish k path scripts d' (hdisk ▸ hfiles)
    refine ⟨_, k', hrun, ?_, rfl, rfl, hk', published_of_wrote rs p hrs path scripts _ _ hd hfiles⟩
    exact ⟨hresult.ok, hresult.error, hresult.units, hresult.replaced, hresult.failures,
      hresult.ordered, hresult.summary⟩
  · intro actual k' hrun hactual
    have hfiles := hwrote k k' actual (hdisk ▸ hd) hrun hactual
    rw [hdisk] at hfiles
    exact hfiles

section
variable (plan : Plan) (hsources : plan.mergeWith = sources) (houtput : plan.output = some output)
  (hscripts : plan.scriptFolder = scriptFolder) (p : Priority)

include houtput hscripts in
theorem foretelling_conclude (rs : List Registry) (hrs : ∀ r ∈ rs, r.Sound)
    (predicted result : BuildResult) (hok : predicted.ok = true)
    (hunits : (merge rs p).registry.names = predicted.units)
    (hresult : predicted.Foretold inOrder result) :
    Foretelling inOrder sources output scriptFolder
      (conclude plan true (merge rs p).registry predicted)
      (conclude plan false (merge rs p).registry result) := by
  subst hscripts
  by_cases hempty : (merge rs p).registry.size = 0
  · rw [conclude, conclude, if_pos hempty, if_pos hempty]
    apply foretelling_refused _ _ rfl
    exact ⟨rfl, rfl, rfl, rfl, hresult.failures, hresult.ordered, rfl⟩
  · have hdry : conclude plan true (merge rs p).registry predicted = pure predicted := by
      rw [conclude, if_neg hempty, if_pos rfl]
    rw [hdry]
    apply foretelling_performed rs p hrs predicted result _ hok hunits hresult
    · intro k path scripts d' hfiles
      obtain ⟨k', hpersist, hk'⟩ := run_persist plan output houtput _ path scripts k d' hfiles
      exact ⟨k', run_conclude plan _ result k hempty path scripts k' hpersist, hk'⟩
    · intro k k' final hd hrun hfinal
      obtain ⟨-, hpersist⟩ := conclude_ok plan _ result k final k' hfinal hrun
      exact wrote_of_persist plan output houtput _ _ _ k k' hd hpersist

include hsources houtput hscripts

/-- The units were collected in two orders of completion. -/
theorem foretelling_runCollected (hpriority : plan.priority = p.word) (c c' : Collection)
    (hfresh : fresh plan c'.registry = fresh plan c.registry)
    (hbuilt : ∀ u ∈ fresh plan c.registry, u.Built)
    (hdistinct : ((fresh plan c.registry).map (·.name)).Nodup)
    (hcount : c'.registered.length = c.registered.length)
    (hfailures : c'.failures.Perm c.failures) (hordered : inOrder → c' = c) :
    Foretelling inOrder sources output scriptFolder (runCollected plan true c)
      (runCollected plan false c') := by
  obtain ⟨units, hunits⟩ := Registry.ofUnits_distinct _ hbuilt hdistinct
  have hfirst := Registry.ofUnits_sound _ units hbuilt hunits
  have hlift : ∀ h : Host,
      (Act.lift ((Registry.ofUnits (fresh plan c.registry)).mapError Fault.registry)).run h =
        (.ok units, { h with journal := h.journal ++ [] }) := by
    intro h
    rw [Act.run_lift, hunits, List.append_nil]
    rfl
  unfold runCollected
  rw [hfresh, hpriority, hsources]
  apply Foretelling.bind_noted _ _ _ _ _ _ _ _ hlift hlift
  apply Foretelling.bind_noted _ _ _ _ _ _ _ _ (Act.run_notes _) (Act.run_notes _)
  apply Foretelling.bind_load
  intro prior hprior
  have hsound : ∀ r ∈ prior.registries ++ [units.freeze], r.Sound := by
    intro r hr
    rcases List.mem_append.mp hr with hr | hr
    · exact hprior r hr
    · rw [List.mem_singleton.mp hr]
      exact ⟨hfirst.distinct, hfirst.units⟩
  apply Foretelling.bind_noted _ _ _ _ _ _ _ _ (Merge.run_mergeAll _ p) (Merge.run_mergeAll _ p)
  apply foretelling_conclude plan houtput hscripts p _ hsound _ _ rfl rfl
  refine ⟨rfl, rfl, rfl, rfl, (hfailures.map _).append_right _, ?_, ?_⟩
  · intro hsame
    rw [hordered hsame]
  · rw [summary, summary, hcount]
    exact (performed_told _ _ (by simp)).symm

theorem foretelling_runArranged (hplan : Sensible plan p) (f g : Arrangement)
    (hf : ∀ ds, (f ds).Perm ds) (hg : ∀ ds, (g ds).Perm ds) (hordered : inOrder → f = g) :
    Foretelling inOrder sources output scriptFolder (runArranged f plan true)
      (runArranged g plan false) := by
  have hcollect := fun (finishing : Arrangement) (tasks : List Delivery) =>
    Collection.run_collectArranged finishing {} tasks plan.workers hplan.workers (fun _ => false)
      true
  rw [runArranged, runArranged, if_neg hplan.some, if_neg hplan.some]
  apply Foretelling.bind_noted _ _ _ _ _ _ _ _ (Act.run_note _) (Act.run_note _)
  apply Foretelling.bind _ _ _ (fun tasks => List.Forall₂ Delivers plan.roots tasks ∧
    ∀ u ∈ Collection.yields tasks, u.Built) (leaves_scan plan)
    (only_scan Act.seesWeb_world.toSees plan)
  · exact fun h h' tasks hscan =>
      ⟨scan_delivers plan h h' tasks hscan, scan_built plan h h' tasks hscan⟩
  · intro h h' e hrun
    obtain ⟨tasks, h₁, hscan, -⟩ := run_scan plan hplan.workers h
    rw [hscan] at hrun
    cases hrun
  rintro tasks ⟨hdelivers, hbuilt⟩
  have hdistinct := (yields_sublist plan.roots tasks hdelivers).nodup hplan.roots
  obtain ⟨hfreshf, hcountf, hfailuresf⟩ := collect_delivered plan hplan.roots tasks hdelivers f hf
  obtain ⟨hfreshg, hcountg, hfailuresg⟩ := collect_delivered plan hplan.roots tasks hdelivers g hg
  apply Foretelling.bind_noted _ _ _ _ _ _ _ _ (hcollect f tasks) (hcollect g tasks)
  apply foretelling_runCollected plan hsources houtput hscripts p hplan.priority _ _
    (hfreshg.trans hfreshf.symm) (hfreshf.symm ▸ hbuilt) (hfreshf.symm ▸ hdistinct)
    (hcountg.trans hcountf.symm) (hfailuresg.trans hfailuresf.symm)
  intro hsame
  rw [hordered hsame]

end

theorem foretelling_finish (rs : List Registry) (p : Priority) (hrs : ∀ r ∈ rs, r.Sound)
    (predicted result : BuildResult) (hok : predicted.ok = true)
    (hunits : (merge rs p).registry.names = predicted.units)
    (hresult : predicted.Foretold inOrder result) (hscripts : result.scripts = []) :
    Foretelling inOrder sources output "" (pure predicted)
      (MergeFiles.finish (merge rs p).registry output result) := by
  apply foretelling_performed rs p hrs predicted result _ hok hunits hresult
  · intro k path scripts d' hfiles
    cases hfiles with
    | cons _ d₁ _ _ _ _ _ _ hreplace hrest =>
      cases hrest
      rw [MergeFiles.run_finish, Artifact.run_write, hreplace k rfl, ← hscripts]
      exact ⟨_, rfl, rfl⟩
  · intro k k' final hd hrun hfinal
    obtain ⟨hwrite, hfinish⟩ := MergeFiles.finish_ok _ output _ final k k' hfinal hrun
    have hnone : final.scripts = [] := by
      rw [hfinish]
      exact hscripts
    rw [Artifact.run_write] at hwrite
    split at hwrite
    case h_2 => cases hwrite
    case h_1 _ k₁ hreplace =>
      cases hwrite
      rw [hnone]
      exact Disk.Wrote.run_cons _ _ _ _ _ _ k k₁ hd hreplace fun _ => .nil _

theorem foretelling_mergeFiles (p : Priority) :
    Foretelling inOrder sources output "" (MergeFiles.run sources output p.word true)
      (MergeFiles.run sources output p.word false) := by
  apply Foretelling.bind_load
  intro loaded hsound
  by_cases hnone : loaded.registries.isEmpty = true
  · simp only [hnone, if_true]
    apply foretelling_refused _ _ rfl
    exact ⟨rfl, rfl, rfl, rfl, .refl _, fun _ => rfl, rfl⟩
  simp only [hnone]
  apply Foretelling.bind_noted _ _ _ _ _ _ _ _ (Merge.run_mergeAll _ p) (Merge.run_mergeAll _ p)
  apply foretelling_finish _ p hsound _ _ rfl rfl _ rfl
  exact ⟨rfl, rfl, rfl, rfl, .refl _, fun _ => rfl, (performed_told _ _ (by simp)).symm⟩

end

/-- A dry run leaves the disk and the network alone and foretells the run that writes: for all
settings that were checked and whatever the orders in which the workers of the two runs finish, and
for all merges of files. -/
theorem dry_run_foretells :
    (∀ (env : Environment) (strict : Bool) (config : Json) (s : Settings) (ws : List Warning),
      Settings.check env strict config = .ok (s, ws) →
      ∀ f g : Arrangement, (∀ ds, (f ds).Perm ds) → (∀ ds, (g ds).Perm ds) →
      ∀ h : Host, h.disk.WellFormed →
      Foretells (f = g) s.mergeWith s.outputPath s.scriptFolder h.world
        ((runArranged f (.ofSettings s) true).run h)
        ((runArranged g (.ofSettings s) false).run h)) ∧
    ∀ (sources : List String) (output : String) (p : Priority) (h : Host), h.disk.WellFormed →
      Foretells True sources output "" h.world
        ((MergeFiles.run sources output p.word true).run h)
        ((MergeFiles.run sources output p.word false).run h) := by
  refine ⟨?_, fun sources output p h hd => foretelling_mergeFiles p h h rfl hd⟩
  intro env strict config s ws hcheck f g hf hg h hd
  by_cases hnone : s.sourceRoots.isEmpty ∧ s.mergeWith.isEmpty
  · have hrun : ∀ (finishing : Arrangement) (dryRun : Bool),
        runArranged finishing (.ofSettings s) dryRun = pure (.failure
          "Nothing to build: no source roots and no artifacts to merge." [] []) :=
      fun finishing dryRun => if_pos hnone
    rw [hrun, hrun]
    exact .refused _ _ h h rfl ⟨rfl, rfl, rfl, rfl, .refl _, fun _ => rfl, rfl⟩ rfl rfl
  · have hplan := sensible_of_settings env strict config s ws hcheck hnone
    exact foretelling_runArranged (.ofSettings s) rfl rfl rfl s.priority hplan f g hf hg id h h rfl
      hd

/-- A run that went well is one that was foretold. -/
theorem Foretells.of_ok (inOrder : Prop) (sources : List String) (output scriptFolder : String)
    (world : Disk × Web) (dry : Except Fault BuildResult × Host) (actual : BuildResult) (k : Host)
    (h : Foretells inOrder sources output scriptFolder world dry (.ok actual, k))
    (hok : actual.ok = true) :
    ∃ predicted h₁ r, dry = (.ok predicted, h₁) ∧ h₁.world = world ∧
      predicted.Foretold inOrder actual ∧ r.names = predicted.units ∧
      Published r (filesOf output scriptFolder r) actual.artifactPath world.1 k.disk := by
  cases h with
  | refused predicted _ h₁ _ hrefused hactual =>
    rw [hactual.ok, hrefused] at hok
    cases hok
  | performed predicted r h₁ _ _ hh hunits hwrites hwrote =>
    obtain ⟨_, _, hreal, hactual, -, -, hk, hpublished⟩ := hwrites _ _ _ (hwrote actual k rfl hok)
    cases hreal
    exact ⟨predicted, h₁, r, rfl, hh, hactual, hunits, hpublished⟩

/-- An artifact that was written alone is found under its path. -/
theorem Published.load (r : Registry) (output text path : String) (d : Disk) (k : Host)
    (h : Published r [(output, text)] path d k.disk)
    (hfolder : k.disk.isFolder (Path.folder path) = true) :
    ∃ k', (Artifact.load path).run k = (.ok r, k') := by
  obtain ⟨q, qs, hput, hfirst⟩ := h
  cases hput with
  | cons _ d₁ _ _ _ _ _ _ _ hrest =>
    cases hrest
    exact (hfirst List.not_mem_nil).2 hfolder k rfl

theorem dry_run_foretells_village :
    (∃ (predicted actual : BuildResult) (h k k' : Host) (r : Registry),
      (runArranged List.reverse (.ofSettings villageSettings) true).run village =
        (.ok predicted, h) ∧ h.disk = village.disk ∧
      (runArranged id (.ofSettings villageSettings) false).run village = (.ok actual, k) ∧
      actual.ok = true ∧ predicted.Foretold ((List.reverse : Arrangement) = id) actual ∧
      (Artifact.load "/c").run k = (.ok r, k') ∧ r.names = predicted.units) ∧
    ∃ (predicted actual : BuildResult) (h k k' : Host) (r : Registry),
      (MergeFiles.run ["a"] "b" Priority.lastWins.word true).run MergeFiles.archive =
        (.ok predicted, h) ∧ h.disk = MergeFiles.archive.disk ∧
      (MergeFiles.run ["a"] "b" Priority.lastWins.word false).run MergeFiles.archive =
        (.ok actual, k) ∧
      actual.ok = true ∧ predicted.Foretold True actual ∧
      (Artifact.load "/b").run k = (.ok r, k') ∧ r.names = predicted.units := by
  obtain ⟨hbuilds, hmerges⟩ := dry_run_foretells
  refine ⟨?_, ?_⟩
  · obtain ⟨actual, k, hrun, hok, hpath, -, hdisk⟩ := exists_of_told _ _ _ _ _ village_built
    have hforetells := hbuilds village.environment true villageConfig villageSettings []
      (by decide +kernel) List.reverse id List.reverse_perm (fun _ => .refl _) village
      (Disk.wellFormed_of_entries _ (by decide) rfl)
    rw [hrun] at hforetells
    obtain ⟨predicted, h, r, hdry, hworld, hactual, hunits, hpublished⟩ :=
      hforetells.of_ok _ _ _ _ _ _ _ _ hok
    rw [hpath] at hpublished
    obtain ⟨k', hload⟩ := hpublished.load _ _ _ _ _ _ (by rw [hdisk]; decide +kernel)
    exact ⟨predicted, actual, h, k, k', r, hdry, congrArg Prod.fst hworld, hrun, hok, hactual,
      hload, hunits⟩
  · have hwrite : ((Artifact.write (merge [MergeFiles.archived] .lastWins).registry "b").run
        MergeFiles.archive).1 = .ok "/b" := by decide +kernel
    obtain ⟨actual, k, hrun, hok, hpath, hdisk⟩ := MergeFiles.run_of_write ["a"]
      [MergeFiles.archived] "b" "/b" .lastWins MergeFiles.archive MergeFiles.archive
      (.cons MergeFiles.archive_holds .nil) (by simp) rfl hwrite
    have hforetells := hmerges ["a"] "b" .lastWins MergeFiles.archive MergeFiles.archive_wellFormed
    rw [hrun] at hforetells
    obtain ⟨predicted, h, r, hdry, hworld, hactual, hunits, hpublished⟩ :=
      hforetells.of_ok _ _ _ _ _ _ _ _ hok
    rw [hpath] at hpublished
    obtain ⟨k', hload⟩ := hpublished.load _ _ _ _ _ _ (by rw [hdisk]; decide +kernel)
    exact ⟨predicted, actual, h, k, k', r, hdry, congrArg Prod.fst hworld, hrun, hok, hactual,
      hload, hunits⟩

end Build

end DocNavigation
