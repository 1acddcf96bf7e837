import DocNavigation.Proofs.Artifact.Written
import DocNavigation.Proofs.Collect.Accounts
import DocNavigation.Proofs.Merge.Staged
import DocNavigation.Proofs.Script.Export
import DocNavigation.Proofs.Sources.Loaded

/-!
Builds and the order in which their workers finish. Every name comes from one task, and the units
are put into the order of the plan again before they are merged, so that only the order of the
failures tells which worker was first.
-/

namespace DocNavigation

/-- The machine with an empty journal. -/
def Host.quiet (h : Host) : Host :=
  { h with journal := [] }

theorem Act.seesWeb_quiet : Act.SeesWeb Host.quiet where
  disk h k heq := show h.quiet.disk = k.quiet.disk from congrArg Host.disk heq
  changed _ _ d heq := congrArg (fun h : Host => { h with disk := d }) heq
  noted _ _ := rfl
  web h k heq := show h.quiet.web = k.quiet.web from congrArg Host.web heq
  requested _ _ r heq := congrArg (fun h : Host => { h with requests := h.requests ++ [r] }) heq

/-- The same result, but for the order of its failures. -/
structure BuildResult.Alike (r s : BuildResult) : Prop where
  failures : r.failures.Perm s.failures
  rest : { r with failures := [] } = { s with failures := [] }

theorem BuildResult.Alike.summary (r s : BuildResult) (h : r.Alike s) : r.summary = s.summary :=
  show { r with failures := [] }.summary = { s with failures := [] }.summary from
    congrArg BuildResult.summary h.rest

namespace Build

/-- What the task of a root can come to: the unit of the root or a failure. -/
def Delivers (root : String × String) (d : Delivery) : Prop :=
  (∃ tree catalog, d.outcome = .unit ⟨root.1, tree, catalog⟩) ∨
    ∃ message, d.outcome = .failed message

theorem yields_sublist (roots : List (String × String)) (tasks : List Delivery)
    (h : List.Forall₂ Delivers roots tasks) :
    ((Collection.yields tasks).map (·.name)).Sublist (roots.map (·.1)) := by
  induction h with
  | nil => exact List.Sublist.refl _
  | @cons root d roots tasks hd _ ih =>
    have hone : ((Collection.yields [d]).map (·.name)).Sublist [root.1] := by
      rw [Collection.yields_singleton, Collection.yield?]
      rcases hd with ⟨tree, catalog, hd⟩ | ⟨message, hd⟩
      · rw [hd, Outcome.parts]
        by_cases hsegment : Name.isSegment root.1 = true
        · simp [hsegment, Component.close]
        · simp [hsegment]
      · rw [hd]
        exact List.nil_sublist _
    have hsplit : Collection.yields (d :: tasks) =
        Collection.yields [d] ++ Collection.yields tasks := Collection.yields_append [d] tasks
    rw [hsplit, List.map_append]
    exact hone.append ih

/-- Units that go by some of the names, in their order, are found again under the names. -/
theorem filterMap_find? (names : List String) (hnames : names.Nodup) (units : List Component)
    (h : (units.map (·.name)).Sublist names) :
    names.filterMap (fun n => units.find? (·.name = n)) = units := by
  induction names generalizing units with
  | nil =>
    have hempty := List.sublist_nil.mp h
    rw [List.map_eq_nil_iff.mp hempty]
    rfl
  | cons n names ih =>
    rw [List.nodup_cons] at hnames
    rcases List.sublist_cons_iff.mp h with h | ⟨rest, hrest, h⟩
    · have hother : units.find? (·.name = n) = none := by
        rw [List.find?_eq_none]
        intro u hu hname
        exact hnames.1 (of_decide_eq_true hname ▸ h.subset (List.mem_map_of_mem hu))
      simp only [List.filterMap_cons, hother]
      exact ih hnames.2 units h
    · obtain ⟨u, units, rfl, rfl, rfl⟩ := List.map_eq_cons_iff.mp hrest
      have hfirst : (u :: units).find? (·.name = u.name) = some u := List.find?_cons_of_pos (by simp)
      have hother : ∀ m ∈ names, (u :: units).find? (·.name = m) = units.find? (·.name = m) := by
        intro m hm
        apply List.find?_cons_of_neg
        simp only [decide_eq_true_eq]
        intro hname
        exact hnames.1 (hname ▸ hm)
      simp only [List.filterMap_cons, hfirst]
      rw [List.filterMap_congr hother, ih hnames.2 units h]

section
variable (plan : Plan) (hroots : (plan.roots.map (·.1)).Nodup) (tasks : List Delivery)
  (htasks : List.Forall₂ Delivers plan.roots tasks) (finishing : Arrangement)
  (hfinishing : ∀ ds, (finishing ds).Perm ds)
include hroots htasks hfinishing

/-- The collection of the tasks, but for the order in which they completed. -/
theorem collect_delivered :
    let c := collect {} tasks (fun _ => false) finishing true
    fresh plan c.registry = Collection.yields tasks ∧
      c.registered.length = (Collection.yields tasks).length ∧
      c.failures.Perm (Collection.failuresOf (tasks.map (Collection.item false []))) := by
  have hperm := hfinishing tasks
  have hyields : (Collection.yields (finishing tasks)).Perm (Collection.yields tasks) :=
    hperm.filterMap _
  have hsublist := yields_sublist plan.roots tasks htasks
  have hnodup : ((Collection.yields tasks).map (·.name)).Nodup := hsublist.nodup hroots
  have hnodup' : ((Collection.yields (finishing tasks)).map (·.name)).Nodup :=
    (hyields.map _).nodup_iff.mpr hnodup
  obtain ⟨hunits, hregistered, hfailures⟩ := Collection.collect_distinct tasks finishing hnodup'
  refine ⟨?_, ?_, ?_⟩
  · have hget : ∀ n, Registry.get? (collect {} tasks (fun _ => false) finishing true).registry n =
        (Collection.yields tasks).find? (·.name = n) := by
      intro n
      rw [Registry.get?, hunits]
      refine Option.ext fun u => ?_
      rw [Component.find?_eq_some_iff _ hnodup', Component.find?_eq_some_iff _ hnodup,
        hyields.mem_iff]
    have hmapped := filterMap_find? (plan.roots.map (·.1)) hroots _ hsublist
    rw [List.filterMap_map] at hmapped
    rw [fresh, ← hmapped]
    exact List.filterMap_congr fun root _ => hget root.1
  · rw [hregistered, List.length_map, hyields.length_eq]
  · rw [hfailures]
    exact (hperm.map _).filterMap _

end

section
variable {γ : Type} {view : Host → γ}

theorem only_persist (hview : Act.Sees view) (plan : Plan) (r : Registry) :
    Act.Only view (persist plan r) := by
  have hscripts : Act.Only view (exportWanted plan r) := by
    unfold exportWanted
    split
    · exact Act.only_pure _
    · exact Script.only_exportTo hview _ r
  unfold persist
  split
  · exact Act.only_throw _
  · apply Act.Only.bind _ _ (Artifact.only_write hview r _)
    intro path
    exact Act.Only.bind _ _ hscripts fun scripts => Act.only_pure _

theorem only_mergeAll (hview : Act.Sees view) (sources : List Registry) (priority : String) :
    Act.Only view (mergeAll sources priority) := by
  unfold mergeAll
  split
  · exact Act.only_throw _
  · exact Act.Only.bind _ _ (Act.only_notes hview _) fun _ => Act.only_pure _

theorem related_collectArranged (hview : Act.Sees view) (f g : Arrangement) (target : Registry)
    (tasks : List Delivery) (workers : Option Int) (isSet : Nat → Bool) (freeze : Bool) :
    Act.Related view
      (fun c c' => c = collect target tasks isSet f freeze ∧ c' = collect target tasks isSet g freeze)
      (collectArranged f target tasks workers isSet freeze)
      (collectArranged g target tasks workers isSet freeze) := by
  intro h k heq
  by_cases hworkers : ∀ w ∈ workers, 0 < w
  · rw [Collection.run_collectArranged f target tasks workers hworkers,
      Collection.run_collectArranged g target tasks workers hworkers]
    refine ⟨.ok _ _ ⟨rfl, rfl⟩, ?_⟩
    exact (hview.noted h _).trans (heq.trans (hview.noted k _).symm)
  · have hsome : workers.any (· ≤ 0) = true := by
      cases workers with
      | none => exact absurd nofun hworkers
      | some w => simpa using hworkers
    have hrun : ∀ (finishing : Arrangement) (h : Host),
        (collectArranged finishing target tasks workers isSet freeze).run h =
          (.error .workers, h) := by
      intro finishing h
      simp only [collectArranged, hsome]
      rfl
    rw [hrun, hrun]
    exact ⟨.error _, heq⟩

theorem only_deliver (hview : Act.Sees view) (o : ScanOptions) (unit root : String) (index : Nat) :
    Act.Only view (ScanTask.deliver o unit root index) := by
  have htree : Act.Only view (scanTree (ScanTask.options o) root) := by
    apply Act.Only.bind _ _ (Act.only_disk hview)
    intro d
    apply Act.Only.bind _ _ (Act.only_notes hview _)
    intro _
    apply Act.Only.bind _ _ (Act.only_lift _)
    intro t
    exact Act.Only.bind _ _ (Act.only_note hview _) fun _ => Act.only_pure _
  have hrun : Act.Only view (ScanTask.run o unit root) := by
    apply Act.Only.bind _ _ htree
    intro t
    exact Act.Only.bind _ _ (Act.only_look hview _) fun c => Act.only_pure _
  apply Act.Only.bind _ _ (Act.Only.attempt _ hrun)
  intro r
  cases r with
  | ok u => exact Act.only_pure _
  | error e => exact Act.only_pure _

theorem only_scan (hview : Act.Sees view) (plan : Plan) : Act.Only view (scan plan) := by
  unfold scan
  split
  · exact Act.only_throw _
  · exact Act.Only.mapM _ _ fun root _ => only_deliver hview _ _ _ _

theorem run_task (o : ScanOptions) (unit root : String) (u : Component) (h h' : Host)
    (hrun : (ScanTask.run o unit root).run h = (.ok u, h')) :
    ∃ tree catalog, u = ⟨unit, tree, catalog⟩ := by
  obtain ⟨tree, _, -, hrun⟩ := (Effect.bind_eq_ok_iff _ _ _ _ _).mp hrun
  obtain ⟨catalog, _, -, hrun⟩ := (Effect.bind_eq_ok_iff _ _ _ _ _).mp hrun
  cases hrun
  exact ⟨tree, catalog, rfl⟩

/-- What the task of a root came to: the unit that it made, or a failure. -/
def Ran (plan : Plan) (root : String × String) (d : Delivery) : Prop :=
  (∃ h u h', (ScanTask.run plan.scan root.1 root.2).run h = (.ok u, h') ∧ d.outcome = .unit u) ∨
    ∃ message, d.outcome = .failed message

/-- A scan runs the task of each root. -/
theorem scan_ran (plan : Plan) (h h' : Host) (tasks : List Delivery)
    (hscan : (scan plan).run h = (.ok tasks, h')) :
    List.Forall₂ (Ran plan) plan.roots tasks := by
  have hone : ∀ root ∈ plan.roots.zipIdx, ∀ h d h', (scanRoot plan root).run h = (.ok d, h') →
      Ran plan root.1 d := by
    intro root _ h d h' hrun
    rw [scanRoot, ScanTask.deliver, Effect.run_bind, Act.run_attempt] at hrun
    cases hresult : (ScanTask.run plan.scan root.1.1 root.1.2).run h with
    | mk r h₁ =>
      rw [hresult] at hrun
      cases r with
      | ok u =>
        cases hrun
        exact .inl ⟨h, u, _, hresult, rfl⟩
      | error e =>
        cases hrun
        exact .inr ⟨_, rfl⟩
  rw [scan] at hscan
  split at hscan
  case isTrue => cases hscan
  case isFalse =>
    have hall := Effect.mapM_ok _ _ _ hone tasks h h' hscan
    rw [← List.zipIdx_map_fst 0 plan.roots]
    exact List.forall₂_map_left_iff.mpr hall

/-- What a scan gives is what the tasks of the roots can come to. -/
theorem scan_delivers (plan : Plan) (h h' : Host) (tasks : List Delivery)
    (hscan : (scan plan).run h = (.ok tasks, h')) : List.Forall₂ Delivers plan.roots tasks := by
  refine (scan_ran plan h h' tasks hscan).imp fun root d hran => ?_
  rcases hran with ⟨k, u, k', hrun, hd⟩ | hfailed
  · obtain ⟨tree, catalog, rfl⟩ := run_task _ _ _ u k k' hrun
    exact .inl ⟨tree, catalog, hd⟩
  · exact .inr hfailed

section
variable (plan : Plan) (r : Registry) (result result' : BuildResult) (h : result.Alike result')
include h

theorem related_failure (error : String) (summary summary' : List (String × Json))
    (hsummary : summary = summary') :
    Act.Related view BuildResult.Alike (pure (.failure error result.failures summary))
      (pure (.failure error result'.failures summary')) := by
  subst hsummary
  exact Act.related_pure _ _ _ ⟨h.failures, rfl⟩

theorem related_finish (hview : Act.Sees view) :
    Act.Related view BuildResult.Alike (finish plan r result) (finish plan r result') := by
  apply Act.Only.bind_related _ _ _ (Act.Only.attempt _ (only_persist hview plan r))
  intro written
  cases written with
  | ok paths =>
    apply Act.related_pure
    refine ⟨h.failures, ?_⟩
    exact congrArg (fun s : BuildResult => { s with artifactPath := paths.1, scripts := paths.2 }) h.rest
  | error e =>
    simp only
    split
    · apply Act.Only.bind_related _ _ _ (Act.only_note hview _)
      intro _
      exact related_failure result result' h _ _ _ h.summary
    · exact Act.related_throw _ e

theorem related_conclude (hview : Act.Sees view) (dryRun : Bool) :
    Act.Related view BuildResult.Alike (conclude plan dryRun r result)
      (conclude plan dryRun r result') := by
  unfold conclude
  by_cases hempty : r.size = 0
  · simp only [hempty, if_true]
    exact related_failure result result' h _ _ _ rfl
  · simp only [hempty, if_false]
    cases dryRun with
    | true => exact Act.related_pure _ _ _ h
    | false => exact related_finish plan r result result' h hview

end

/-- A build goes by the collected units in the order of the plan, and by their number. -/
theorem related_runCollected (hview : Act.SeesWeb view) (plan : Plan) (dryRun : Bool)
    (c c' : Collection) (hfresh : fresh plan c.registry = fresh plan c'.registry)
    (hcount : c.registered.length = c'.registered.length) (hfailures : c.failures.Perm c'.failures) :
    Act.Related view BuildResult.Alike (runCollected plan dryRun c) (runCollected plan dryRun c') := by
  unfold runCollected
  rw [hfresh]
  apply Act.Only.bind_related _ _ _ (Act.only_lift _)
  intro units
  apply Act.Only.bind_related _ _ _ (Act.only_notes hview.toSees _)
  intro _
  apply Act.Only.bind_related _ _ _ (Sources.only_load hview plan.mergeWith)
  intro prior
  apply Act.Only.bind_related _ _ _ (only_mergeAll hview.toSees _ _)
  intro merged
  apply related_conclude _ _ _ _ _ hview.toSees
  refine ⟨(hfailures.map _).append_right _, ?_⟩
  simp only [summary, hcount]

section
variable (plan : Plan) (hroots : (plan.roots.map (·.1)).Nodup) (dryRun : Bool) (f g : Arrangement)
  (hf : ∀ ds, (f ds).Perm ds) (hg : ∀ ds, (g ds).Perm ds)
include hroots hf hg

theorem related_runDelivered (hview : Act.SeesWeb view) (tasks : List Delivery)
    (htasks : List.Forall₂ Delivers plan.roots tasks) :
    Act.Related view BuildResult.Alike (runDelivered f plan dryRun tasks)
      (runDelivered g plan dryRun tasks) := by
  obtain ⟨hfreshf, hcountf, hfailuresf⟩ := collect_delivered plan hroots tasks htasks f hf
  obtain ⟨hfreshg, hcountg, hfailuresg⟩ := collect_delivered plan hroots tasks htasks g hg
  apply Act.Related.bind _ _ _ _ (related_collectArranged hview.toSees f g {} tasks _ _ _)
  intro c c' ⟨hc, hc'⟩
  subst hc
  subst hc'
  exact related_runCollected hview plan dryRun _ _ (hfreshf.trans hfreshg.symm)
    (hcountf.trans hcountg.symm) (hfailuresf.trans hfailuresg.symm)

theorem related_runArranged (hview : Act.SeesWeb view) :
    Act.Related view BuildResult.Alike (runArranged f plan dryRun) (runArranged g plan dryRun) := by
  unfold runArranged
  split
  · exact Act.related_pure _ _ _ ⟨.refl _, rfl⟩
  · apply Act.Only.bind_related _ _ _ (Act.only_note hview.toSees _)
    intro _
    apply Act.Related.bind _ _ _ _ ((only_scan hview.toSees plan).related _ _ (scan_delivers plan))
    intro tasks _ ⟨hsame, htasks⟩
    subst hsame
    exact related_runDelivered plan hroots dryRun f g hf hg hview tasks htasks

end

end

/-- The ends of two builds that cannot be told apart by what they give, their failures in another
order, and by what they leave on the disk. -/
structure Agree (x y : Except Fault BuildResult × Host) : Prop where
  result : Act.Both BuildResult.Alike x.1 y.1
  disk : x.2.disk = y.2.disk
  requests : x.2.requests = y.2.requests

/-- Two roots that are scanned and one that fails. -/
def threeRoots : Plan where
  roots := [("b", "/b"), ("c", "/c"), ("a", "/a")]
  output := some "/out"

def threeTasks : List Delivery :=
  [⟨"b", .unit ⟨"b", Tree.empty "", {}⟩⟩, ⟨"c", .failed "unreadable"⟩,
   ⟨"a", .unit ⟨"a", Tree.empty "", {}⟩⟩]

end Build

end DocNavigation
