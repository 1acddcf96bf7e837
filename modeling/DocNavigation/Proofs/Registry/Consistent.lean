import DocNavigation.Proofs.Named
import DocNavigation.Proofs.Registry.Clients

/-!
What the clients of a registry can rely on. All of them see one registry that only grows, in which
every name has at most one winner and every unit is closed; who comes too late is refused and leaves
everything as it was.
-/

namespace DocNavigation.SharedRegistry

/-- A turn as it occurs in a run. -/
structure Turn.Proper (t : Turn) : Prop where
  served : Served t.before t.call (t.after, t.answer)
  holds : t.call.Holds t.before
  before : t.before.Sound
  after : t.after.Sound

namespace Chain
variable {s s' : SharedRegistry} {turns : List Turn}

theorem proper (h : Chain s turns s') (hs : s.Sound) (hholds : ∀ t ∈ turns, t.call.Holds s)
    (t : Turn) (ht : t ∈ turns) : t.Proper := by
  obtain ⟨earlier, rest, rfl⟩ := List.append_of_mem ht
  obtain ⟨hearlier, hserved, -⟩ := split earlier rest t h
  have hbefore := hearlier.sound hs fun u hu => hholds u (List.mem_append_left _ hu)
  have hcall := (hholds t ht).later _ _ hearlier.later
  exact ⟨hserved, hcall, hbefore, Served.sound _ _ _ _ hserved hbefore hcall⟩

/-- What holds of any two turns of which one comes after the other. -/
theorem pairwise (h : Chain s turns s') (hproper : ∀ t ∈ turns, t.Proper)
    (R : Turn → Turn → Prop)
    (hR : ∀ t u : Turn, t.Proper → u.Proper → Later t.after u.before → R t u) :
    turns.Pairwise R := by
  induction h with
  | nil s => exact .nil
  | cons t turns s' _ hrest ih =>
    obtain ⟨ht, hturns⟩ := List.forall_mem_cons.mp hproper
    refine .cons (fun u hu => ?_) (ih hturns)
    have hu' := hturns u hu
    -- what was answered between the two is a chain of its own
    obtain ⟨between, rest, rfl⟩ := List.append_of_mem hu
    exact hR t u ht hu' (split between rest u hrest).1.later

end Chain

/-- What an attempt to register comes to. -/
def verdict (frozen : Bool) (names : List String) (name : Json) (tree : Handle) (catalog : Nat) :
    Answer :=
  match Name.check "unit" name with
  | .error e => .refused (.name e)
  | .ok n =>
    if frozen then .refused .frozen
    else if n ∈ names then .refused (.duplicate n)
    else .registered ⟨n, tree, catalog⟩

def Answer.listed? : Answer → Option (List String)
  | .names ns => some ns
  | .units us => some (us.map (·.name))
  | _ => none

section
variable (s s' : SharedRegistry) (c : Call) (a : Answer) (u : SharedUnit)

theorem Served.verdict (name : Json) (tree : Handle) (catalog : Nat)
    (h : Served s (.register name tree catalog) (s', a)) :
    a = verdict s.frozen s.names name tree catalog := by
  rw [SharedRegistry.verdict]
  cases h with
  | invalid _ _ _ e hname => rw [hname]
  | sealed _ _ _ n hname hfrozen => simp [hname, hfrozen]
  | duplicate _ _ _ n hname hopen hold => simp [hname, hopen, hold]
  | registered _ _ _ n hname hopen hnew => simp [hname, hopen, hnew]

theorem Served.refused (e : RegistryError) (h : Served s c (s', .refused e)) : s' = s := by
  cases h <;> rfl

theorem Served.registered_new (h : Served s c (s', .registered u)) :
    u.name ∉ s.names ∧ u ∈ s'.entries := by
  cases h with
  | registered name tree catalog n hname hopen hnew =>
    exact ⟨hnew, List.mem_append_right _ (List.mem_singleton_self _)⟩

theorem Served.add_view (hs : s.Sound) (hc : c.Holds s) (h : Served s c (s', .registered u)) :
    s.view.add (s.read u) = .ok s'.view := by
  cases h with
  | registered name tree catalog n hname hopen hnew =>
    obtain ⟨-, hsegment⟩ := Name.isSegment_of_check "unit" name n hname
    exact SharedRegistry.add_view s ⟨n, tree, catalog⟩ hs hsegment hopen hnew hc

theorem Served.units_eq (us : List SharedUnit) (h : Served s c (s', .units us)) :
    us = s'.entries := by
  cases h
  rfl

theorem Served.listed (ns : List String) (h : Served s c (s', a)) (ha : a.listed? = some ns) :
    ns = s'.names := by
  cases h with
  | names | units =>
    cases ha
    rfl
  | _ => cases ha

theorem Served.get (hs : s.Sound) (hu : u ∈ s.entries) (h : Served s (.get u.name) (s', a)) :
    a = .found u := by
  cases h with
  | found _ v hfind =>
    rw [(Named.find?_eq_some_iff SharedUnit.name s.entries hs.distinct u.name u).mpr ⟨hu, rfl⟩]
      at hfind
    cases hfind
    rfl
  | missing _ hnone => exact absurd (List.mem_map_of_mem hu) hnone

end

/-- What the clients of a registry can rely on, when it was `s` at first and they were served in
this order. -/
structure Consistent (s : SharedRegistry) (turns : List Turn) : Prop where
  attempts : ∀ earlier t later, turns = earlier ++ t :: later → ∀ name tree catalog,
    t.call = .register name tree catalog →
      t.answer = verdict (s.frozen || earlier.any (·.call = .freeze))
        (s.names ++ (earlier.flatMap (·.answer.won)).map (·.name)) name tree catalog
  refused : ∀ t ∈ turns, ∀ e, t.answer = .refused e → t.after = t.before
  /-- As a value, the registry takes in what the unit is when it is registered. -/
  registered : ∀ t ∈ turns, ∀ u, t.answer = .registered u →
    t.before.view.add (t.before.read u) = .ok t.after.view
  winners : turns.Pairwise fun t t' => ∀ u v,
    t.answer = .registered u → t'.answer = .registered v → u.name ≠ v.name
  found : turns.Pairwise fun t t' => ∀ u,
    t.answer = .registered u → t'.call = .get u.name →
      t'.answer = .found u ∧ t'.after.read u = t.after.read u
  snapshots : turns.Pairwise fun t t' => ∀ us vs,
    t.answer = .units us → t'.answer = .units vs → us <+: vs
  listings : turns.Pairwise fun t t' => ∀ ns ms,
    t.answer.listed? = some ns → t'.answer.listed? = some ms → ns <+: ms
  /-- What is in a snapshot reads the same ever after. -/
  steady : turns.Pairwise fun t t' => ∀ us,
    t.answer = .units us → ∀ u ∈ us, t'.after.read u = t.after.read u
  closed : ∀ t ∈ turns, ∀ us, t.answer = .units us → ∀ u ∈ us,
    (t.after.read u).isSealed = true ∧ (t.after.read u).close = t.after.read u
  frozen : turns.Pairwise fun t t' => t.call = .freeze →
    (∀ us, t'.answer = .units us → us = t.after.entries) ∧
      ∀ ns, t'.answer.listed? = some ns → ns = t.after.names

namespace Turn.Proper
variable {t : Turn} (h : t.Proper)

include h in
theorem units (us : List SharedUnit) (hanswer : t.answer = .units us) : us = t.after.entries := by
  have hserved := h.served
  rw [hanswer] at hserved
  exact Served.units_eq _ _ _ us hserved

include h in
theorem registered (u : SharedUnit) (hanswer : t.answer = .registered u) :
    u.name ∉ t.before.names ∧ u ∈ t.after.entries := by
  have hserved := h.served
  rw [hanswer] at hserved
  exact Served.registered_new _ _ _ u hserved

include h in
theorem later : Later t.before t.after :=
  Served.later _ _ _ _ h.served

end Turn.Proper

theorem Later.names_grow (s s' : SharedRegistry) (h : Later s s') : s.names <+: s'.names :=
  h.entries.map _

theorem Chain.attempts (s s' : SharedRegistry) (turns : List Turn) (h : Chain s turns s')
    (earlier : List Turn) (t : Turn) (later : List Turn) (hturns : turns = earlier ++ t :: later)
    (name : Json) (tree : Handle) (catalog : Nat) (hcall : t.call = .register name tree catalog) :
    t.answer = verdict (s.frozen || earlier.any (·.call = .freeze))
      (s.names ++ (earlier.flatMap (·.answer.won)).map (·.name)) name tree catalog := by
  subst hturns
  obtain ⟨hearlier, hserved, -⟩ := h.split earlier later t
  rw [hcall] at hserved
  rw [Served.verdict _ _ _ name tree catalog hserved, hearlier.frozen, names, hearlier.entries,
    List.map_append]
  rfl

theorem Chain.consistent (s s' : SharedRegistry) (turns : List Turn) (h : Chain s turns s')
    (hproper : ∀ t ∈ turns, t.Proper) : Consistent s turns where
  attempts := h.attempts
  refused t ht e hanswer := by
    have hserved := (hproper t ht).served
    rw [hanswer] at hserved
    exact Served.refused _ _ _ e hserved
  registered t ht u hanswer := by
    have hserved := (hproper t ht).served
    rw [hanswer] at hserved
    exact Served.add_view _ _ _ u (hproper t ht).before (hproper t ht).holds hserved
  winners := h.pairwise hproper _ fun t t' ht ht' hlater u v hu hv heq => by
    -- the first winner is still there when the second would need its name to be free
    have hold := hlater.entries.subset (ht.registered u hu).2
    have hmem : u.name ∈ t'.before.names := List.mem_map_of_mem hold
    rw [heq] at hmem
    exact (ht'.registered v hv).1 hmem
  found := h.pairwise hproper _ fun t t' ht ht' hlater u hu hget => by
    have hmem := (ht.registered u hu).2
    have hserved := ht'.served
    rw [hget] at hserved
    exact ⟨Served.get _ _ _ u ht'.before (hlater.entries.subset hmem) hserved,
      (hlater.trans ht'.later).read u (ht.after.units u hmem)⟩
  snapshots := h.pairwise hproper _ fun t t' ht ht' hlater us vs hus hvs => by
    rw [ht.units us hus, ht'.units vs hvs]
    exact (hlater.trans ht'.later).entries
  listings := h.pairwise hproper _ fun t t' ht ht' hlater ns ms hns hms => by
    rw [Served.listed _ _ _ _ ns ht.served hns, Served.listed _ _ _ _ ms ht'.served hms]
    exact (hlater.trans ht'.later).names_grow
  steady := h.pairwise hproper _ fun t t' ht ht' hlater us hus u hu => by
    rw [ht.units us hus] at hu
    exact (hlater.trans ht'.later).read u (ht.after.units u hu)
  closed t ht us hus u hu := by
    rw [(hproper t ht).units us hus] at hu
    have hclosed := (hproper t ht).after.units u hu
    exact ⟨isSealed_read t.after u hclosed, close_read t.after u hclosed⟩
  frozen := h.pairwise hproper _ fun t t' ht ht' hlater hfreeze => by
    have hfrozen : t.after.frozen = true := by
      have hserved := Served.frozen _ _ _ _ ht.served
      rw [hserved, hfreeze]
      simp
    have hsame := ((hlater.trans ht'.later).frozen hfrozen).2
    refine ⟨fun us hus => (ht'.units us hus).trans hsame, fun ns hns => ?_⟩
    rw [Served.listed _ _ _ _ ns ht'.served hns, names, hsame]
    rfl

/-- However the clients of a registry are scheduled, each has its calls answered in its own order,
and the answers are consistent. -/
theorem run_consistent (σ : System) (schedule : List Nat) (hs : σ.shared.Sound)
    (hholds : ∀ p ∈ σ.clients, ∀ c ∈ p.calls, c.Holds σ.shared) :
    (∀ i, ((σ.run schedule).1.filter (·.client = i)).map (·.call) ++
      (σ.run schedule).2.calls i = σ.calls i) ∧
    (∀ i, 2 * (σ.calls i).length ≤ schedule.count i → (σ.run schedule).2.calls i = []) ∧
    Chain σ.shared (σ.run schedule).1 (σ.run schedule).2.shared ∧
    Consistent σ.shared (σ.run schedule).1 := by
  have hchain := run_chain schedule σ
  have hcalls := run_calls schedule σ
  refine ⟨hcalls, run_answers schedule σ, hchain, hchain.consistent _ _ _ (hchain.proper hs fun t ht => ?_)⟩
  have hcall : t.call ∈ σ.calls t.client := by
    rw [← hcalls t.client]
    exact List.mem_append_left _ (List.mem_map_of_mem (List.mem_filter.mpr ⟨ht, by simp⟩))
  obtain ⟨p, hp, hmem⟩ := σ.mem_calls t.client t.call hcall
  exact hholds p hp t.call hmem

/-- Two clients want the same name, and a third closes the registry before it registers a unit
itself. -/
def raced : System where
  shared := { grove := ⟨[Tree.empty "", Tree.empty ""]⟩, catalogs := [{}, {}] }
  clients :=
    [⟨[.register (.str "a") ⟨0, []⟩ 0, .units], false⟩,
     ⟨[.register (.str "a") ⟨1, []⟩ 1, .get "a"], false⟩,
     ⟨[.freeze, .register (.str "b") ⟨1, []⟩ 1, .units], false⟩]

theorem run_consistent_raced :
    (raced.run [0, 1, 1, 0, 0, 2, 2, 2, 1, 2]).1.map (fun t => (t.client, t.answer)) =
      [(1, .registered ⟨"a", ⟨1, []⟩, 1⟩), (0, .refused (.duplicate "a")),
       (0, .units [⟨"a", ⟨1, []⟩, 1⟩]), (2, .frozen), (2, .refused .frozen),
       (1, .found ⟨"a", ⟨1, []⟩, 1⟩), (2, .units [⟨"a", ⟨1, []⟩, 1⟩])] ∧
    raced.shared.Sound ∧ (∀ p ∈ raced.clients, ∀ c ∈ p.calls, c.Holds raced.shared) ∧
    Consistent raced.shared (raced.run [0, 1, 1, 0, 0, 2, 2, 2, 1, 2]).1 := by
  have hs : raced.shared.Sound := ⟨List.nodup_nil, nofun⟩
  have hholds : ∀ p ∈ raced.clients, ∀ c ∈ p.calls, c.Holds raced.shared := by
    decide +kernel
  exact ⟨by decide +kernel, hs, hholds, (run_consistent raced _ hs hholds).2.2.2⟩

end DocNavigation.SharedRegistry
