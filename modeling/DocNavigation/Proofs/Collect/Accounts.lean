import DocNavigation.Build.Run
import DocNavigation.Proofs.Collect.Items
import DocNavigation.Proofs.Collect.Looks

/-!
Collections account for their tasks, whatever order these complete in and whenever the wish to stop
is seen. Where all tasks have names of their own, no unit comes second with its name, and so what each
task adds does not depend on the tasks that completed before it.
-/

namespace DocNavigation.Collection

/-- The collection accounts for the tasks that were taken back. -/
structure Accounts (target : Registry) (back : List Delivery) (c : Collection)
    (items : List Item) : Prop where
  count : items.length = back.length
  each : ∀ i d, back[i]? = some d →
    items[i]? = some (item target.frozen (target.names ++ namesOf (items.take i)) d)
  registered : c.registered = namesOf items
  failures : c.failures = failuresOf items
  names : c.registry.names = target.names ++ c.registered
  units : target.units <+: c.registry.units
  won : ∀ i d n, back[i]? = some d → (items[i]? = some (.ok n) ↔
    target.frozen = false ∧ Produced d n ∧ n ∉ target.names ∧ n ∉ namesOf (items.take i))
  failed : ∀ i d f, back[i]? = some d → items[i]? = some (.error f) →
    f.task = d.label ∧ (f.duplicate = true ↔
      target.frozen = false ∧ ∃ n, Produced d n ∧ (n ∈ target.names ∨ n ∈ namesOf (items.take i)))

theorem accounts_foldl (target : Registry) (stopped : Bool) (back : List Delivery) :
    Accounts target back (back.foldl take { registry := target, cancelled := stopped })
      (items target.frozen target.names back) := by
  have hadds := foldl_take_adds back { registry := target, cancelled := stopped }
  have heach : ∀ i d, back[i]? = some d → (items target.frozen target.names back)[i]? =
      some (item target.frozen
        (target.names ++ namesOf ((items target.frozen target.names back).take i)) d) := by
    intro i d hd
    rw [items_getElem?, hd]
    rfl
  refine ⟨items_length _ _ _, heach, hadds.registered, hadds.failures, ?_, hadds.units, ?_, ?_⟩
  · rw [hadds.names, hadds.registered]
    rfl
  · intro i d n hd
    rw [heach i d hd, Option.some_inj, item_eq_ok_iff, List.mem_append, not_or]
  · intro i d f hd hf
    rw [heach i d hd, Option.some_inj] at hf
    have herror := item_eq_error _ _ d f hf
    simp only [List.mem_append] at herror
    exact herror

/-- Only the units of the registry and the two lists matter. -/
theorem Accounts.congr (target : Registry) (back : List Delivery) (c c' : Collection)
    (items : List Item) (h : Accounts target back c items)
    (hunits : c'.registry.units = c.registry.units) (hregistered : c'.registered = c.registered)
    (hfailures : c'.failures = c.failures) : Accounts target back c' items where
  count := h.count
  each := h.each
  registered := hregistered.trans h.registered
  failures := hfailures.trans h.failures
  names := by
    rw [Registry.names, hunits, hregistered]
    exact h.names
  units := by
    rw [hunits]
    exact h.units
  won := h.won
  failed := h.failed

theorem run_collectArranged (finishing : Arrangement) (target : Registry)
    (tasks : List Delivery) (workers : Option Int) (hworkers : ∀ w ∈ workers, 0 < w)
    (isSet : Nat → Bool) (freeze : Bool) (host : Host) :
    (collectArranged finishing target tasks workers isSet freeze).run host =
      (.ok (collect target tasks isSet finishing freeze),
        { host with journal := host.journal ++ (collect target tasks isSet finishing freeze).notes })
    := by
  have hsome : workers.any (· ≤ 0) = false := by
    cases workers with
    | none => rfl
    | some w => simpa using hworkers w rfl
  simp only [collectArranged, hsome]
  rfl

/-- A collection ends without a fault, and accounts for the tasks that were taken back before the
wish to stop was seen, in the order in which they completed. -/
theorem collectArranged_accounts (finishing : Arrangement)
    (hfinishing : ∀ ds, (finishing ds).Perm ds) (target : Registry) (tasks : List Delivery)
    (workers : Option Int) (hworkers : ∀ w ∈ workers, 0 < w) (isSet : Nat → Bool)
    (hstays : ∀ look, isSet look = true → isSet (look + 1) = true) (freeze : Bool) (host : Host) :
    let c := collect target tasks isSet finishing freeze
    (collectArranged finishing target tasks workers isSet freeze).run host =
      (.ok c, { host with journal := host.journal ++ c.notes }) ∧
    ∃ handed back items,
      handed <+: tasks ∧ (∀ i, i < handed.length ↔ i < tasks.length ∧ isSet i = false) ∧
      back <+: finishing handed ∧
      (∀ i, i < back.length ↔ i < tasks.length ∧ isSet (tasks.length + i) = false) ∧
      Accounts target back c items ∧
      (c.cancelled = true ↔ back.length < tasks.length) ∧
      (c.cancelled = false → c.registered.length + c.failures.length = tasks.length) ∧
      c.registry.frozen = (target.frozen || freeze) := by
  intro c
  obtain ⟨stopped, hc⟩ := collect_eq isSet target tasks finishing hfinishing freeze
  change c = _ at hc
  have hback := back_length isSet finishing hfinishing tasks
  have hfolded := accounts_foldl target stopped (back isSet finishing tasks)
  have hfrozen := (foldl_take_adds (back isSet finishing tasks)
    { registry := target, cancelled := stopped }).frozen
  have haccounts : Accounts target (back isSet finishing tasks) c
      (items target.frozen target.names (back isSet finishing tasks)) := by
    refine hfolded.congr _ _ _ _ _ ?_ (by rw [hc]) (by rw [hc])
    rw [hc]
    cases freeze <;> rfl
  have hcancelled : c.cancelled = decide ((back isSet finishing tasks).length < tasks.length) := by
    rw [hc, hback]
  refine ⟨run_collectArranged finishing target tasks workers hworkers isSet freeze host,
    handed isSet tasks, back isSet finishing tasks, _, List.take_prefix _ _, ?_,
    List.take_prefix _ _, ?_, haccounts, ?_, ?_, ?_⟩
  · intro i
    rw [handed_length, lt_passed_iff isSet hstays, Nat.zero_add]
  · intro i
    rw [hback, lt_processed_iff isSet hstays]
  · rw [hcancelled, decide_eq_true_iff]
  · intro hopen
    have hall : ¬ (back isSet finishing tasks).length < tasks.length := by
      rw [hcancelled] at hopen
      exact of_decide_eq_false hopen
    have hle : (back isSet finishing tasks).length ≤ tasks.length := by
      rw [hback]
      exact Nat.le_trans (processed_le isSet _) (passed_le isSet 0 _)
    rw [haccounts.registered, haccounts.failures, length_items, haccounts.count]
    omega
  · rw [hc]
    cases freeze with
    | false => exact hfrozen.trans (Bool.or_false _).symm
    | true => exact (Bool.or_true _).symm

/-- Six tasks that complete in the opposite order. Two come second with their names, and the wish to
stop is seen before the last is taken back. -/
def crowded : List Delivery :=
  let unit := fun n => (⟨n, Tree.empty "", {}⟩ : Component)
  [⟨"task-0", .unit (unit "d")⟩, ⟨"task-1", .failed "parser crashed"⟩,
   ⟨"task-2", .unit (unit "b")⟩, ⟨"task-3", .triple (.str "a") (Tree.empty "") {}⟩,
   ⟨"task-4", .triple .null (Tree.empty "") {}⟩, ⟨"task-5", .unit (unit "b")⟩]

theorem collectArranged_accounts_crowded :
    let target : Registry := ⟨[⟨"a", Tree.empty "", {}⟩], false⟩
    let isSet := fun look => decide (11 ≤ look)
    let c := collect target crowded isSet List.reverse true
    (∀ look, isSet look = true → isSet (look + 1) = true) ∧
    c.registered = ["b"] ∧
    c.failures.map (fun f => (f.task, f.duplicate)) =
      [("task-4", false), ("task-3", true), ("task-2", true), ("task-1", false)] ∧
    c.cancelled = true ∧ c.registry.names = ["a", "b"] ∧
    ∃ back items, Accounts target back c items ∧ back <+: crowded.reverse ∧ back.length = 5 := by
  intro target isSet c
  have hstays : ∀ look, isSet look = true → isSet (look + 1) = true := by
    intro look hlook
    have hle := of_decide_eq_true hlook
    exact decide_eq_true (Nat.le_succ_of_le hle)
  obtain ⟨-, handed, back, items, hhanded, hhandedLength, hback, hbackLength, haccounts, -⟩ :=
    collectArranged_accounts List.reverse List.reverse_perm target crowded (some 2) (by decide)
      isSet hstays true { disk := { workdir := [] } }
  refine ⟨hstays, by decide +kernel, by decide +kernel, by decide +kernel, by decide +kernel,
    back, items, haccounts, ?_, ?_⟩
  · have hlength : handed.length = crowded.length := by
      have h5 := (hhandedLength 5).mpr (by decide)
      have hle := hhanded.length_le
      change handed.length ≤ 6 at hle
      change handed.length = 6
      omega
    rw [hhanded.eq_of_length hlength] at hback
    exact hback
  · have h4 := (hbackLength 4).mpr (by decide)
    have h5 : ¬ 5 < back.length := fun h => absurd ((hbackLength 5).mp h).2 (by decide)
    omega

/-- The unit of a task as it is registered. -/
def yield? (d : Delivery) : Option Component :=
  match d.outcome.parts with
  | .ok (.str n, tree, catalog) =>
    if Name.isSegment n then some (Component.close ⟨n, tree, catalog⟩) else none
  | _ => none

def yields (ds : List Delivery) : List Component :=
  ds.filterMap yield?

theorem yields_append (ds es : List Delivery) : yields (ds ++ es) = yields ds ++ yields es :=
  List.filterMap_append

theorem yields_singleton (d : Delivery) : yields [d] = (yield? d).toList := by
  rw [yields, List.filterMap_cons]
  cases yield? d <;> rfl

/-- A name that nothing else goes by is not taken. -/
theorem item_of_free (taken : List String) (d : Delivery)
    (h : ∀ u ∈ yield? d, u.name ∉ taken) : item false taken d = item false [] d := by
  rw [item, item]
  cases hparts : d.outcome.parts with
  | error e => rfl
  | ok parts =>
    obtain ⟨name, tree, catalog⟩ := parts
    simp only
    cases hname : Name.check "unit" name with
    | error e => rfl
    | ok n =>
      obtain ⟨rfl, hsegment⟩ := Name.isSegment_of_check "unit" name n hname
      have hyield : yield? d = some (Component.close ⟨n, tree, catalog⟩) := by
        simp only [yield?, hparts, hsegment, if_true]
      have hfree : n ∉ taken := h _ hyield
      simp [hfree]

/-- What tasks with names of their own add. -/
structure Takes (c c' : Collection) (ds : List Delivery) : Prop where
  units : c'.registry.units = c.registry.units ++ yields ds
  frozen : c'.registry.frozen = c.registry.frozen
  registered : c'.registered = c.registered ++ (yields ds).map (·.name)
  failures : c'.failures = c.failures ++ failuresOf (ds.map (item false []))

theorem take_takes (c : Collection) (d : Delivery) (hopen : c.registry.frozen = false)
    (h : ∀ u ∈ yield? d, u.name ∉ c.registry.names) : Takes c (c.take d) [d] := by
  have hadds := take_adds c d
  rw [hopen, item_of_free _ d h] at hadds
  have hunits : (c.take d).registry.units = c.registry.units ++ (yield? d).toList ∧
      (c.take d).registered = c.registered ++ (yield? d).toList.map (·.name) := by
    rw [take, yield?]
    cases hparts : d.outcome.parts with
    | error e => simp [fail]
    | ok parts =>
      obtain ⟨name, tree, catalog⟩ := parts
      simp only [add, Registry.register_eq, hopen]
      cases name with
      | str n =>
        by_cases hsegment : Name.isSegment n = true
        · have hyield : yield? d = some (Component.close ⟨n, tree, catalog⟩) := by
            simp only [yield?, hparts, hsegment, if_true]
          have hfree : n ∉ c.registry.names := h _ hyield
          simp [Name.check_str "unit" n hsegment, hsegment, hfree]
        · simp [Name.check, hsegment, fail]
      | _ => simp [Name.check, fail]
  rw [← yields_singleton] at hunits
  exact ⟨hunits.1, hadds.frozen, hunits.2, hadds.failures⟩

theorem foldl_take_takes (ds : List Delivery) (c : Collection) (hopen : c.registry.frozen = false)
    (hnodup : (c.registry.names ++ (yields ds).map (·.name)).Nodup) :
    Takes c (ds.foldl take c) ds := by
  induction ds generalizing c with
  | nil => exact ⟨by simp [yields], rfl, by simp [yields], by simp [failuresOf]⟩
  | cons d ds ih =>
    have hsplit : yields (d :: ds) = yields [d] ++ yields ds := yields_append [d] ds
    rw [hsplit, List.map_append, ← List.append_assoc] at hnodup
    have hfree : ∀ u ∈ yield? d, u.name ∉ c.registry.names := by
      intro u hu hmem
      have hyielded : u ∈ yields [d] := List.mem_filterMap.mpr ⟨d, List.mem_singleton.mpr rfl, hu⟩
      have hfirst := (List.nodup_append.mp hnodup).1
      exact (List.nodup_append.mp hfirst).2.2 _ hmem u.name (List.mem_map_of_mem hyielded) rfl
    have hone := take_takes c d hopen hfree
    have hnames : (c.take d).registry.names = c.registry.names ++ (yields [d]).map (·.name) := by
      rw [Registry.names, hone.units, List.map_append, Registry.names]
    have hrest := ih (c.take d) (hone.frozen.trans hopen) (by rw [hnames]; exact hnodup)
    rw [List.foldl_cons]
    refine ⟨?_, hrest.frozen.trans hone.frozen, ?_, ?_⟩
    · rw [hrest.units, hone.units, hsplit, List.append_assoc]
    · rw [hrest.registered, hone.registered, hsplit, List.map_append, List.append_assoc]
    · rw [hrest.failures, hone.failures, List.append_assoc, ← failuresOf_append]
      rfl

theorem passed_never (look n : Nat) : passed (fun _ => false) look n = n := by
  induction n generalizing look with
  | zero => rfl
  | succ n ih =>
    rw [passed, ih]
    rfl

/-- A collection that no one wishes to stop takes every task back, in the order of completion. -/
theorem collect_distinct (tasks : List Delivery) (finishing : List Delivery → List Delivery)
    (hnodup : ((yields (finishing tasks)).map (·.name)).Nodup) :
    let c := collect {} tasks (fun _ => false) finishing true
    c.registry.units = yields (finishing tasks) ∧
      c.registered = (yields (finishing tasks)).map (·.name) ∧
      c.failures = failuresOf ((finishing tasks).map (item false [])) := by
  have hhanded : handOut (fun _ => false) 0 tasks = (tasks, false) := by
    rw [handOut_eq, passed_never, List.take_length]
    simp
  have htakes := foldl_take_takes (finishing tasks) { registry := {} } rfl hnodup
  simp only [collect, hhanded]
  rw [takeBack_eq, passed_never, List.take_length]
  exact ⟨htakes.units, htakes.registered, htakes.failures⟩

end DocNavigation.Collection
