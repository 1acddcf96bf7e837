import DocNavigation.Proofs.Build.Scan
import DocNavigation.Proofs.Sources.Loaded

/-!
What a build writes. The stages before the writing leave the disk and the network as they are, so
that the merged registry depends on the machine through the scanned units and the loaded sources.
-/

namespace DocNavigation.Build

theorem leaves_deliver (o : ScanOptions) (unit root : String) (index : Nat) :
    Act.Leaves Host.world (ScanTask.deliver o unit root index) := by
  have hnotes := Act.leaves_notes Act.seesWeb_world.toSees
  have htree : Act.Leaves Host.world (scanTree (ScanTask.options o) root) := by
    apply Act.Leaves.bind _ _ fun _ => rfl
    intro d
    apply Act.Leaves.bind _ _ (hnotes _)
    intro _
    apply Act.Leaves.bind _ _ (Act.leaves_lift _)
    intro t
    exact Act.Leaves.bind _ _ (hnotes [_]) fun _ => Act.leaves_pure _
  have hrun : Act.Leaves Host.world (ScanTask.run o unit root) := by
    apply Act.Leaves.bind _ _ htree
    intro t
    exact Act.Leaves.bind _ _ (Act.leaves_look _) fun c => Act.leaves_pure _
  apply Act.Leaves.bind _ _ (Act.Leaves.attempt _ hrun)
  intro r
  cases r with
  | ok u => exact Act.leaves_pure _
  | error e => exact Act.leaves_pure _

theorem leaves_scan (plan : Plan) : Act.Leaves Host.world (scan plan) := by
  unfold scan
  split
  · exact Act.leaves_throw _
  · exact Act.Leaves.mapM _ _ fun root => leaves_deliver _ _ _ _

/-- A task that fails is delivered too. -/
theorem run_deliver (o : ScanOptions) (unit root : String) (index : Nat) (h : Host) :
    ∃ d h₁, (ScanTask.deliver o unit root index).run h = (.ok d, h₁) := by
  rw [ScanTask.deliver, Effect.run_bind, Act.run_attempt]
  cases ((ScanTask.run o unit root).run h).1 with
  | ok u => exact ⟨_, _, rfl⟩
  | error e => exact ⟨_, _, rfl⟩

theorem run_scanRoots (plan : Plan) (roots : List ((String × String) × Nat)) (h : Host) :
    ∃ tasks h₁, (roots.mapM (scanRoot plan)).run h = (.ok tasks, h₁) := by
  induction roots generalizing h with
  | nil => exact ⟨[], h, rfl⟩
  | cons root roots ih =>
    obtain ⟨d, h₁, hd⟩ := run_deliver plan.scan root.1.1 root.1.2 root.2 h
    obtain ⟨tasks, h₂, htasks⟩ := ih h₁
    refine ⟨d :: tasks, h₂, ?_⟩
    rw [List.mapM_cons, Effect.run_bind, scanRoot, hd]
    simp only
    rw [Effect.run_bind, htasks]
    rfl

/-- A scan always comes to an end, whatever its tasks come to. -/
theorem run_scan (plan : Plan) (hworkers : ∀ w ∈ plan.workers, 0 < w) (h : Host) :
    ∃ tasks h₁, (scan plan).run h = (.ok tasks, h₁) ∧ h₁.world = h.world := by
  have hsome : ¬ (plan.workers.any (· ≤ 0) = true) := by
    rw [Option.any_eq_true]
    intro ⟨w, hw, hle⟩
    have hpos := hworkers w hw
    simp only [decide_eq_true_eq] at hle
    omega
  obtain ⟨tasks, h₁, hrun⟩ := run_scanRoots plan plan.roots.zipIdx h
  have hscan : (scan plan).run h = (.ok tasks, h₁) := by
    rw [scan, if_neg hsome]
    exact hrun
  have hleaves := leaves_scan plan h
  rw [hscan] at hleaves
  exact ⟨tasks, h₁, hscan, hleaves⟩

/-- The units that a scan gives on this machine. -/
def scanned (plan : Plan) (h : Host) : List Component :=
  (((scan plan).run h).1.toOption.map Collection.yields).getD []

theorem scanned_congr (plan : Plan) (h k : Host) (heq : h.world = k.world) :
    scanned plan h = scanned plan k := by
  rw [scanned, scanned, (only_scan Act.seesWeb_world.toSees plan h k heq).1]

theorem scanned_built (plan : Plan) (h : Host) : ∀ u ∈ scanned plan h, u.Built := by
  rw [scanned]
  cases hrun : (scan plan).run h with
  | mk r h₁ =>
    cases r with
    | ok tasks => exact scan_built plan h h₁ tasks hrun
    | error e => exact nofun

/-- What the sources of a plan give on this machine, and after them the scanned units. -/
def inputs (plan : Plan) (h : Host) (fresh : Registry) : List Registry :=
  plan.mergeWith.filterMap (Sources.loaded? h) ++ [fresh.freeze]

theorem inputs_congr (plan : Plan) (h k : Host) (heq : h.world = k.world) (fresh : Registry) :
    inputs plan h fresh = inputs plan k fresh :=
  congrArg (· ++ [fresh.freeze])
    (List.filterMap_congr fun s _ => Sources.loaded?_congr h k heq s)

/-- What is asked of a plan: there is something to build, the roots have names of their own and the
words and numbers mean something. -/
structure Sensible (plan : Plan) (p : Priority) : Prop where
  some : ¬ (plan.roots.isEmpty ∧ plan.mergeWith.isEmpty)
  roots : (plan.roots.map (·.1)).Nodup
  workers : ∀ w ∈ plan.workers, 0 < w
  priority : plan.priority = p.word

section
variable (plan : Plan) (p : Priority) (hplan : Sensible plan p) (finishing : Arrangement)
  (hfinishing : ∀ ds, (finishing ds).Perm ds) (h : Host)
include hplan

include hfinishing in
/-- A build collects the units of the scan. -/
theorem run_prepared (dryRun : Bool) : ∃ c h₁, h₁.world = h.world ∧
    fresh plan c.registry = scanned plan h ∧
    (runArranged finishing plan dryRun).run h = (runCollected plan dryRun c).run h₁ := by
  let noted : Host := { h with
    journal := h.journal ++ [.info s!"Build: Scanning {plan.roots.length} source roots..."] }
  obtain ⟨tasks, h₁, hscan, hworld⟩ := run_scan plan hplan.workers noted
  have hdelivers := scan_delivers plan noted h₁ tasks hscan
  have hfresh := (collect_delivered plan hplan.roots tasks hdelivers finishing hfinishing).1
  have hscanned : scanned plan h = Collection.yields tasks := by
    rw [scanned_congr plan h noted rfl, scanned, hscan]
    rfl
  rw [runArranged, if_neg hplan.some, Effect.run_bind, Act.run_note]
  simp only
  rw [Effect.run_bind, hscan]
  simp only
  rw [runDelivered, Effect.run_bind, Collection.run_collectArranged _ _ _ _ hplan.workers]
  let c := collect {} tasks (fun _ => false) finishing true
  exact ⟨c, { h₁ with journal := h₁.journal ++ c.notes }, hworld, hfresh.trans hscanned.symm, rfl⟩

variable (c : Collection)

/-- A build whose units can be registered and whose sources can be read writes their merge. -/
theorem run_collected (fresh : Registry)
    (hfresh : Registry.ofUnits (Build.fresh plan c.registry) = .ok fresh)
    (hreadable : ∀ s ∈ plan.mergeWith, Sources.IsReadable s) :
    ∃ result h₁, h₁.world = h.world ∧ result.ok = true ∧
      (runCollected plan false c).run h =
        (conclude plan false (merge (inputs plan h fresh) p).registry result).run h₁ := by
  let registered : Host := { h with
    journal := h.journal ++ (Build.fresh plan c.registry).map Registry.registered }
  obtain ⟨prior, h₁, hload, hworld, hregistries⟩ :=
    Sources.run_load_readable plan.mergeWith hreadable registered
  have hloaded : prior.registries ++ [fresh.freeze] = inputs plan h fresh := by
    rw [hregistries]
    exact inputs_congr plan registered h rfl fresh
  rw [runCollected, Effect.run_bind, Act.run_lift, hfresh]
  simp only [Except.mapError]
  rw [Effect.run_bind, Act.run_notes]
  simp only
  rw [Effect.run_bind, hload]
  simp only
  rw [Effect.run_bind, hplan.priority, hloaded, Merge.run_mergeAll]
  refine ⟨_, { h₁ with journal := h₁.journal ++ (merge (inputs plan h fresh) p).notes }, hworld, ?_,
    rfl⟩
  rfl

omit hplan in
theorem runCollected_ok (final : BuildResult) (h' : Host)
    (hrun : (runCollected plan false c).run h = (.ok final, h')) :
    (∃ fresh, Registry.ofUnits (Build.fresh plan c.registry) = .ok fresh) ∧
      ∀ s ∈ plan.mergeWith, Sources.IsReadable s := by
  obtain ⟨fresh, h₁, hlift, hrun⟩ := (Effect.bind_eq_ok_iff _ _ _ _ _).mp hrun
  obtain ⟨_, h₂, -, hrun⟩ := (Effect.bind_eq_ok_iff _ _ _ _ _).mp hrun
  obtain ⟨prior, h₃, hload, -⟩ := (Effect.bind_eq_ok_iff _ _ _ _ _).mp hrun
  rw [Act.run_lift] at hlift
  obtain ⟨hfresh, -⟩ := Prod.mk.inj hlift
  exact ⟨⟨fresh, (Result.mapError_eq_ok_iff _ _ _).mp hfresh⟩,
    Sources.readable_of_load _ _ _ _ hload⟩

end

section
variable (plan : Plan) (r : Registry) (result : BuildResult) (h : Host)

theorem run_finish (path : String) (scripts : List String) (h' : Host)
    (hpersist : (persist plan r).run h = (.ok (path, scripts), h')) :
    (finish plan r result).run h =
      (.ok { result with artifactPath := path, scripts := scripts }, h') := by
  rw [finish, Effect.run_bind, Act.run_attempt, hpersist]
  rfl

/-- There is nothing to write, everything was written, or writing failed. -/
theorem conclude_cases (final : BuildResult) (h' : Host)
    (hrun : (conclude plan false r result).run h = (.ok final, h')) :
    (final.ok = false ∧ h' = h) ∨
    (final.ok = result.ok ∧ r.size ≠ 0 ∧
      (persist plan r).run h = (.ok (final.artifactPath, final.scripts), h')) ∨
    (final.ok = false ∧ ∃ e h₁, (persist plan r).run h = (.error e, h₁) ∧ h'.disk = h₁.disk) := by
  by_cases hempty : r.size = 0
  · rw [conclude, if_pos hempty] at hrun
    cases hrun
    exact .inl ⟨rfl, rfl⟩
  rw [conclude, if_neg hempty, if_neg Bool.false_ne_true] at hrun
  cases hpersist : (persist plan r).run h with
  | mk written h₁ =>
    cases written with
    | ok written =>
      rw [run_finish plan r result h written.1 written.2 h₁ hpersist] at hrun
      cases hrun
      exact .inr (.inl ⟨rfl, hempty, rfl⟩)
    | error e =>
      rw [finish, Effect.run_bind, Act.run_attempt, hpersist] at hrun
      simp only at hrun
      by_cases hrefusal : e.isRefusal = true
      · rw [if_pos hrefusal] at hrun
        cases hrun
        exact .inr (.inr ⟨rfl, e, h₁, rfl, rfl⟩)
      · rw [if_neg hrefusal] at hrun
        cases hrun

theorem conclude_ok (final : BuildResult) (h' : Host) (hok : final.ok = true)
    (hrun : (conclude plan false r result).run h = (.ok final, h')) :
    r.size ≠ 0 ∧ (persist plan r).run h = (.ok (final.artifactPath, final.scripts), h') := by
  rcases conclude_cases plan r result h final h' hrun with ⟨hfailed, -⟩ | ⟨-, hwritten⟩ | ⟨hfailed, -⟩
  · cases hok.symm.trans hfailed
  · exact hwritten
  · cases hok.symm.trans hfailed

theorem run_conclude (hsize : r.size ≠ 0) (path : String) (scripts : List String) (h' : Host)
    (hpersist : (persist plan r).run h = (.ok (path, scripts), h')) :
    (conclude plan false r result).run h =
      (.ok { result with artifactPath := path, scripts := scripts }, h') := by
  rw [conclude, if_neg hsize, if_neg Bool.false_ne_true]
  exact run_finish plan r result h path scripts h' hpersist

end

/-- The files of a build and their texts, in the order in which they are written. -/
def filesOf (output scriptFolder : String) (r : Registry) : List (String × String) :=
  (output, Artifact.encode r) :: if scriptFolder = "" then [] else Script.filesOf scriptFolder r

section
variable (plan : Plan) (output : String) (houtput : plan.output = some output) (r : Registry)
  (path : String) (scripts : List String) (h : Host)
include houtput

theorem wrote_of_persist (h' : Host) (hd : h.disk.WellFormed)
    (hrun : (persist plan r).run h = (.ok (path, scripts), h')) :
    Disk.Wrote h.disk (filesOf output plan.scriptFolder r) (path :: scripts) h'.disk := by
  rw [persist, houtput] at hrun
  simp only at hrun
  obtain ⟨written, h₁, hwrite, hrun⟩ := (Effect.bind_eq_ok_iff _ _ _ _ _).mp hrun
  obtain ⟨files, h₂, hscripts, hrun⟩ := (Effect.bind_eq_ok_iff _ _ _ _ _).mp hrun
  cases hrun
  rw [Artifact.run_write] at hwrite
  split at hwrite
  case h_2 => cases hwrite
  case h_1 _ h₃ hreplace =>
    cases hwrite
    refine Disk.Wrote.run_cons _ _ _ _ _ _ h h₃ hd hreplace fun hd₃ => ?_
    rw [exportWanted] at hscripts
    by_cases hnone : plan.scriptFolder = ""
    · rw [if_pos hnone] at hscripts ⊢
      cases hscripts
      exact .nil _
    · rw [if_neg hnone] at hscripts ⊢
      have hwrote := fun hd => Script.wrote_of_exportTo _ _ _ _ _ hd hscripts
      exact hwrote hd₃

/-- Where the files can be written one after the other, they are. -/
theorem run_persist (d' : Disk)
    (hwrote : Disk.Wrote h.disk (filesOf output plan.scriptFolder r) (path :: scripts) d') :
    ∃ h', (persist plan r).run h = (.ok (path, scripts), h') ∧ h'.disk = d' := by
  cases hwrote with
  | cons _ d₁ _ _ _ _ _ _ hreplace hrest =>
    rw [persist, houtput]
    simp only
    rw [Effect.run_bind, Artifact.run_write, hreplace h rfl]
    simp only
    rw [Effect.run_bind, exportWanted]
    by_cases hnone : plan.scriptFolder = ""
    · rw [if_pos hnone] at hrest ⊢
      cases hrest
      exact ⟨_, rfl, rfl⟩
    · rw [if_neg hnone] at hrest ⊢
      let written : Host := { h with
        disk := d₁
        journal := h.journal ++ [.info s!"Artifact: {r.size} units written to {path}"] }
      rw [Script.run_exportTo plan.scriptFolder r scripts d' written hrest]
      exact ⟨_, rfl, rfl⟩

end

section
variable (plan : Plan) (p : Priority) (hplan : Sensible plan p) (finishing : Arrangement)
  (hfinishing : ∀ ds, (finishing ds).Perm ds) (h : Host)
include hplan hfinishing

/-- A build whose scan can be registered and whose sources can be read comes to write their merge. -/
theorem run_readable (hreadable : ∀ s ∈ plan.mergeWith, Sources.IsReadable s) (fresh : Registry)
    (hfresh : Registry.ofUnits (scanned plan h) = .ok fresh) :
    ∃ result h₁, h₁.disk = h.disk ∧ result.ok = true ∧ (runArranged finishing plan false).run h =
      (conclude plan false (merge (inputs plan h fresh) p).registry result).run h₁ := by
  obtain ⟨c, h₁, hworld, hunits, hprepared⟩ := run_prepared plan p hplan finishing hfinishing h false
  rw [← hunits] at hfresh
  obtain ⟨result, h₂, hworld', hresult, hcollected⟩ :=
    run_collected plan p hplan h₁ c fresh hfresh hreadable
  rw [inputs_congr plan h₁ h hworld] at hcollected
  exact ⟨result, h₂, congrArg Prod.fst (hworld'.trans hworld), hresult, hprepared.trans hcollected⟩

/-- A build that comes to a result has come to write the merge of its inputs. -/
theorem run_reached (h' : Host) (final : BuildResult)
    (hrun : (runArranged finishing plan false).run h = (.ok final, h')) :
    (∀ s ∈ plan.mergeWith, Sources.IsReadable s) ∧
    ∃ fresh result h₁, Registry.ofUnits (scanned plan h) = .ok fresh ∧ h₁.disk = h.disk ∧
      result.ok = true ∧
      (conclude plan false (merge (inputs plan h fresh) p).registry result).run h₁ =
        (.ok final, h') := by
  obtain ⟨c, h₁, -, hunits, hprepared⟩ := run_prepared plan p hplan finishing hfinishing h false
  obtain ⟨⟨fresh, hfresh⟩, hreadable⟩ :=
    runCollected_ok plan h₁ c final h' (hprepared.symm.trans hrun)
  rw [hunits] at hfresh
  obtain ⟨result, h₂, hdisk, hresult, hconclude⟩ :=
    run_readable plan p hplan finishing hfinishing h hreadable fresh hfresh
  exact ⟨hreadable, fresh, result, h₂, hfresh, hdisk, hresult, hconclude.symm.trans hrun⟩

end

section
variable (plan : Plan) (p : Priority) (hplan : Sensible plan p) (output : String)
  (houtput : plan.output = some output) (finishing : Arrangement)
  (hfinishing : ∀ ds, (finishing ds).Perm ds) (h : Host)
include hplan houtput hfinishing

/-- A build that went well has written the merge of its inputs. -/
theorem run_ok (h' : Host) (final : BuildResult) (hok : final.ok = true) (hd : h.disk.WellFormed)
    (hrun : (runArranged finishing plan false).run h = (.ok final, h')) :
    (∀ s ∈ plan.mergeWith, Sources.IsReadable s) ∧
    ∃ fresh, Registry.ofUnits (scanned plan h) = .ok fresh ∧
      (merge (inputs plan h fresh) p).registry.size ≠ 0 ∧
      Disk.Wrote h.disk (filesOf output plan.scriptFolder (merge (inputs plan h fresh) p).registry)
        (final.artifactPath :: final.scripts) h'.disk := by
  obtain ⟨hreadable, fresh, result, h₁, hfresh, hdisk, -, hconclude⟩ :=
    run_reached plan p hplan finishing hfinishing h h' final hrun
  obtain ⟨hsize, hpersist⟩ := conclude_ok plan _ result h₁ final h' hok hconclude
  have hwrote := wrote_of_persist plan output houtput _ _ _ h₁ h' (hdisk ▸ hd) hpersist
  rw [hdisk] at hwrote
  exact ⟨hreadable, fresh, hfresh, hsize, hwrote⟩

/-- Where the merge of its inputs can be written, a build goes well. -/
theorem run_of_wrote (hreadable : ∀ s ∈ plan.mergeWith, Sources.IsReadable s) (fresh : Registry)
    (hfresh : Registry.ofUnits (scanned plan h) = .ok fresh)
    (hsize : (merge (inputs plan h fresh) p).registry.size ≠ 0) (path : String)
    (scripts : List String) (d' : Disk)
    (hwrote : Disk.Wrote h.disk
      (filesOf output plan.scriptFolder (merge (inputs plan h fresh) p).registry)
      (path :: scripts) d') :
    ∃ final h', (runArranged finishing plan false).run h = (.ok final, h') ∧ final.ok = true ∧
      final.artifactPath = path ∧ final.scripts = scripts ∧ h'.disk = d' := by
  obtain ⟨result, h₁, hdisk, hgood, hconclude⟩ :=
    run_readable plan p hplan finishing hfinishing h hreadable fresh hfresh
  rw [← hdisk] at hwrote
  obtain ⟨h', hpersist, hafter⟩ := run_persist plan output houtput _ path scripts h₁ d' hwrote
  rw [hconclude, run_conclude plan _ result h₁ hsize path scripts h' hpersist]
  exact ⟨_, h', rfl, hgood, rfl, rfl, hafter⟩

end

end DocNavigation.Build
