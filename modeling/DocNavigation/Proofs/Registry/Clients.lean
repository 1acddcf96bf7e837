import DocNavigation.Proofs.Registry.Shared

/-!
Clients of one registry. Each works through its own calls. A call takes the lock once, and what is
done under the lock is one step; the name of a unit to be registered is checked before that. A run
is a chain of calls served one after another, in whatever order the clients come.
-/

namespace DocNavigation.SharedRegistry

inductive Call where
  | register (name : Json) (tree : Handle) (catalog : Nat)
  | freeze
  | get (name : String)
  | names
  | units
deriving DecidableEq, Repr

inductive Answer where
  | registered (u : SharedUnit)
  | refused (e : RegistryError)
  | frozen
  | found (u : SharedUnit)
  | names (ns : List String)
  | units (us : List SharedUnit)
deriving DecidableEq, Repr

/-- One call under the lock. -/
def serve (s : SharedRegistry) : Call → SharedRegistry × Answer
  | .register name tree catalog =>
    match s.register name tree catalog with
    | (s', .ok u) => (s', .registered u)
    | (s', .error e) => (s', .refused e)
  | .freeze => (s.freeze, .frozen)
  | .get n =>
    match s.get n with
    | .ok u => (s, .found u)
    | .error e => (s, .refused e)
  | .names => (s, .names s.names)
  | .units => (s, .units s.entries)

/-- A call that was answered, with the state it met and the state it left. -/
structure Turn where
  client : Nat
  call : Call
  before : SharedRegistry
  answer : Answer
  after : SharedRegistry
deriving Repr

structure Client where
  calls : List Call
  /-- The name in the first call has passed its check. -/
  checked : Bool := false
deriving Repr

structure System where
  shared : SharedRegistry
  clients : List Client
deriving Repr

def System.calls (σ : System) (i : Nat) : List Call :=
  (σ.clients[i]?.map (·.calls)).getD []

theorem System.mem_calls (σ : System) (i : Nat) (c : Call) (h : c ∈ σ.calls i) :
    ∃ p ∈ σ.clients, c ∈ p.calls := by
  rw [calls] at h
  cases hclient : σ.clients[i]? with
  | none =>
    rw [hclient] at h
    cases h
  | some p =>
    rw [hclient] at h
    exact ⟨p, List.mem_of_getElem? hclient, h⟩

/-- Client `i` goes on by one step, if it has a call left. A name is checked without the lock; that
registering checks it again changes nothing. -/
def System.advance (σ : System) (i : Nat) : Option Turn × System :=
  match σ.clients[i]? with
  | some ⟨.register name tree catalog :: rest, false⟩ =>
    match Name.check "unit" name with
    | .ok _ => (none, ⟨σ.shared, σ.clients.set i ⟨.register name tree catalog :: rest, true⟩⟩)
    | .error e =>
      (some ⟨i, .register name tree catalog, σ.shared, .refused (.name e), σ.shared⟩,
        ⟨σ.shared, σ.clients.set i ⟨rest, false⟩⟩)
  | some ⟨call :: rest, _⟩ =>
    (some ⟨i, call, σ.shared, (σ.shared.serve call).2, (σ.shared.serve call).1⟩,
      ⟨(σ.shared.serve call).1, σ.clients.set i ⟨rest, false⟩⟩)
  | _ => (none, σ)

/-- The clients go on in the order of the schedule. -/
def System.run (σ : System) : List Nat → List Turn × System
  | [] => ([], σ)
  | i :: schedule =>
    ((σ.advance i).1.toList ++ ((σ.advance i).2.run schedule).1, ((σ.advance i).2.run schedule).2)

/-- All that a call can come to. -/
inductive Served (s : SharedRegistry) : Call → SharedRegistry × Answer → Prop
  | invalid (name : Json) (tree : Handle) (catalog : Nat) (e : NameError)
      (hname : Name.check "unit" name = .error e) :
      Served s (.register name tree catalog) (s, .refused (.name e))
  | sealed (name : Json) (tree : Handle) (catalog : Nat) (n : String)
      (hname : Name.check "unit" name = .ok n) (hfrozen : s.frozen = true) :
      Served s (.register name tree catalog) (s, .refused .frozen)
  | duplicate (name : Json) (tree : Handle) (catalog : Nat) (n : String)
      (hname : Name.check "unit" name = .ok n) (hopen : s.frozen = false) (hold : n ∈ s.names) :
      Served s (.register name tree catalog) (s, .refused (.duplicate n))
  | registered (name : Json) (tree : Handle) (catalog : Nat) (n : String)
      (hname : Name.check "unit" name = .ok n) (hopen : s.frozen = false) (hnew : n ∉ s.names) :
      Served s (.register name tree catalog)
        (s.accept ⟨n, tree, catalog⟩, .registered ⟨n, tree, catalog⟩)
  | freeze : Served s .freeze (s.freeze, .frozen)
  | found (n : String) (u : SharedUnit) (h : s.entries.find? (·.name = n) = some u) :
      Served s (.get n) (s, .found u)
  | missing (n : String) (h : n ∉ s.names) : Served s (.get n) (s, .refused (.notFound n))
  | names : Served s .names (s, .names s.names)
  | units : Served s .units (s, .units s.entries)

theorem serve_cases (s : SharedRegistry) (c : Call) : Served s c (s.serve c) := by
  cases c with
  | register name tree catalog =>
    rw [serve, register_eq]
    cases hname : Name.check "unit" name with
    | error e => exact .invalid name tree catalog e hname
    | ok n =>
      by_cases hfrozen : s.frozen = true
      · simp only [hfrozen, if_true]
        exact .sealed name tree catalog n hname hfrozen
      have hopen := eq_false_of_ne_true hfrozen
      by_cases hold : n ∈ s.names
      · simp only [hopen, hold, Bool.false_eq_true, if_false, if_true]
        exact .duplicate name tree catalog n hname hopen hold
      · simp only [hopen, hold, Bool.false_eq_true, if_false]
        exact .registered name tree catalog n hname hopen hold
  | freeze => exact .freeze
  | get n =>
    rw [serve, get]
    cases h : s.entries.find? (·.name = n) with
    | none =>
      refine .missing n fun hn => ?_
      obtain ⟨u, hu, hname⟩ := List.mem_map.mp hn
      have hnone := List.find?_eq_none.mp h u hu
      exact hnone (decide_eq_true hname)
    | some u => exact .found n u h
  | names => exact .names
  | units => exact .units

/-- All that a step can be. -/
inductive Step (σ : System) (i : Nat) : Option Turn × System → Prop
  | idle (hidle : σ.calls i = []) : Step σ i (none, σ)
  | checked (call : Call) (rest : List Call) (hclient : σ.clients[i]? = some ⟨call :: rest, false⟩) :
      Step σ i (none, ⟨σ.shared, σ.clients.set i ⟨call :: rest, true⟩⟩)
  | answered (call : Call) (rest : List Call) (checked : Bool) (s : SharedRegistry) (a : Answer)
      (hclient : σ.clients[i]? = some ⟨call :: rest, checked⟩)
      (hserve : σ.shared.serve call = (s, a)) :
      Step σ i (some ⟨i, call, σ.shared, a, s⟩, ⟨s, σ.clients.set i ⟨rest, false⟩⟩)

theorem advance_cases (σ : System) (i : Nat) : Step σ i (σ.advance i) := by
  rw [System.advance]
  split
  case h_1 name tree catalog rest hclient =>
    cases hname : Name.check "unit" name with
    | ok n => exact .checked _ rest hclient
    | error e =>
      -- under the lock the answer would have been the same
      have hserve : σ.shared.serve (.register name tree catalog) =
          (σ.shared, .refused (.name e)) := by
        rw [serve, register_eq, hname]
      exact .answered _ rest false σ.shared _ hclient hserve
  case h_2 call rest checked _ hclient => exact .answered call rest checked _ _ hclient rfl
  case h_3 hnone hidle =>
    refine .idle ?_
    rw [System.calls]
    cases hclient : σ.clients[i]? with
    | none => rfl
    | some p =>
      obtain ⟨calls, checked⟩ := p
      cases calls with
      | nil => rfl
      | cons call rest => exact absurd hclient (hidle call rest checked)

theorem Served.of_serve (s s' : SharedRegistry) (c : Call) (a : Answer)
    (h : s.serve c = (s', a)) : Served s c (s', a) := by
  rw [← h]
  exact serve_cases s c

def Call.Holds (s : SharedRegistry) : Call → Prop
  | .register _ tree catalog => s.Holds tree catalog
  | _ => True

instance (s : SharedRegistry) (c : Call) : Decidable (c.Holds s) :=
  match c with
  | .register _ tree catalog => inferInstanceAs (Decidable (s.Holds tree catalog))
  | .freeze | .get _ | .names | .units => isTrue trivial

theorem Call.Holds.later (s s' : SharedRegistry) (h : Later s s') (c : Call) (hc : c.Holds s) :
    c.Holds s' := by
  cases c with
  | register name tree catalog => exact h.holds tree catalog hc
  | _ => trivial

def Answer.won : Answer → List SharedUnit
  | .registered u => [u]
  | _ => []

section
variable (s s' : SharedRegistry) (c : Call) (a : Answer) (h : Served s c (s', a))

include h in
theorem Served.later : Later s s' := by
  cases h with
  | registered name tree catalog n hname hopen hnew => exact later_accept s _ hopen
  | freeze => exact later_freeze s
  | _ => exact .refl s

include h in
theorem Served.sound (hs : s.Sound) (hc : c.Holds s) : s'.Sound := by
  cases h with
  | registered name tree catalog n hname hopen hnew => exact sound_accept s _ hs hopen hnew hc
  | freeze => exact ⟨hs.distinct, fun u hu => ⟨(hs.units u hu).tree, (hs.units u hu).catalog⟩⟩
  | _ => exact hs

include h in
theorem Served.entries : s'.entries = s.entries ++ a.won := by
  cases h with
  | registered name tree catalog n hname hopen hnew => rfl
  | _ => exact (List.append_nil _).symm

include h in
theorem Served.frozen : s'.frozen = (s.frozen || c = .freeze) := by
  cases h with
  | freeze => exact (Bool.or_true _).symm
  | _ => exact (Bool.or_false _).symm

end

/-- Turns that follow on from one another. -/
inductive Chain : SharedRegistry → List Turn → SharedRegistry → Prop
  | nil (s : SharedRegistry) : Chain s [] s
  | cons (t : Turn) (turns : List Turn) (s' : SharedRegistry)
      (hserve : t.before.serve t.call = (t.after, t.answer)) (h : Chain t.after turns s') :
      Chain t.before (t :: turns) s'

theorem run_chain (schedule : List Nat) (σ : System) :
    Chain σ.shared (σ.run schedule).1 (σ.run schedule).2.shared := by
  induction schedule generalizing σ with
  | nil => exact .nil σ.shared
  | cons i schedule ih =>
    have hrest := ih (σ.advance i).2
    have hstep := advance_cases σ i
    rw [System.run]
    -- so that the cases of the step can be told apart
    generalize σ.advance i = moved at hrest hstep ⊢
    cases hstep with
    | idle => exact hrest
    | checked call rest hclient => exact hrest
    | answered call rest checked s a hclient hserve =>
      exact .cons ⟨i, call, σ.shared, a, s⟩ _ _ hserve hrest

theorem System.set_client (σ : System) (i j : Nat) (p q : Client)
    (hj : σ.clients[j]? = some p) :
    (σ.clients.set j q)[i]? = if j = i then some q else σ.clients[i]? := by
  rw [List.getElem?_set, if_pos (List.getElem?_eq_some_iff.mp hj).1]

/-- A step answers at most one call, the first that its client had left. -/
theorem Step.calls (σ : System) (j : Nat) (moved : Option Turn × System) (h : Step σ j moved)
    (i : Nat) : (moved.1.toList.filter (·.client = i)).map (·.call) ++ moved.2.calls i =
      σ.calls i := by
  cases h with
  | idle hidle => rfl
  | checked call rest hclient =>
    simp only [System.calls, System.set_client σ i j _ _ hclient]
    obtain rfl | hij := eq_or_ne j i
    · simp [hclient]
    · simp [hij]
  | answered call rest checked s a hclient hserve =>
    simp only [System.calls, System.set_client σ i j _ _ hclient]
    obtain rfl | hij := eq_or_ne j i
    · simp [hclient]
    · simp [hij]

theorem run_calls (schedule : List Nat) (σ : System) (i : Nat) :
    ((σ.run schedule).1.filter (·.client = i)).map (·.call) ++ (σ.run schedule).2.calls i =
      σ.calls i := by
  induction schedule generalizing σ with
  | nil => rfl
  | cons j schedule ih =>
    rw [System.run, List.filter_append, List.map_append, List.append_assoc, ih]
    exact Step.calls σ j _ (advance_cases σ j) i

/-- A bound on the steps that client `i` has left. -/
def System.work (σ : System) (i : Nat) : Nat :=
  match σ.clients[i]? with
  | none => 0
  | some p => 2 * p.calls.length - p.checked.toNat

theorem System.work_le (σ : System) (i : Nat) : σ.work i ≤ 2 * (σ.calls i).length := by
  rw [work, calls]
  cases σ.clients[i]? with
  | none => exact Nat.zero_le _
  | some p => exact Nat.sub_le _ _

theorem System.calls_of_work (σ : System) (i : Nat) (h : σ.work i = 0) : σ.calls i = [] := by
  rw [work] at h
  rw [calls]
  cases hclient : σ.clients[i]? with
  | none => rfl
  | some p =>
    have hchecked := Bool.toNat_le p.checked
    simp only [hclient] at h
    have hlength : p.calls.length = 0 := by omega
    exact List.eq_nil_of_length_eq_zero hlength

theorem Step.work (σ : System) (j : Nat) (moved : Option Turn × System) (h : Step σ j moved)
    (i : Nat) : moved.2.work i ≤ σ.work i - if j = i then 1 else 0 := by
  obtain rfl | hij := eq_or_ne j i
  case inr =>
    rw [if_neg hij]
    cases h with
    | idle hidle => exact Nat.le_refl _
    | checked call rest hclient =>
      simp [System.work, System.set_client σ i j _ _ hclient, hij]
    | answered call rest checked s a hclient hserve =>
      simp [System.work, System.set_client σ i j _ _ hclient, hij]
  rw [if_pos rfl]
  cases h with
  | idle hidle =>
    have hle := σ.work_le j
    rw [hidle, List.length_nil] at hle
    exact Nat.le_trans hle (Nat.zero_le _)
  | checked call rest hclient =>
    simp [System.work, System.set_client σ j j _ _ hclient, hclient]
  | answered call rest checked s a hclient hserve =>
    have hchecked := Bool.toNat_le checked
    simp only [System.work, System.set_client σ j j _ _ hclient, hclient, if_true,
      List.length_cons, Bool.toNat_false]
    omega

theorem run_work (schedule : List Nat) (σ : System) (i : Nat) :
    (σ.run schedule).2.work i ≤ σ.work i - schedule.count i := by
  induction schedule generalizing σ with
  | nil => exact Nat.le_refl _
  | cons j schedule ih =>
    have hstep := Step.work σ j _ (advance_cases σ j) i
    have hrest := ih (σ.advance j).2
    rw [System.run, List.count_cons]
    simp only [beq_iff_eq]
    -- each step of the client takes one off, whatever the others do
    omega

/-- Nobody waits for anybody: two steps of a client for each of its calls are enough. -/
theorem run_answers (schedule : List Nat) (σ : System) (i : Nat)
    (h : 2 * (σ.calls i).length ≤ schedule.count i) : (σ.run schedule).2.calls i = [] := by
  have hbound := σ.work_le i
  have hrun := run_work schedule σ i
  exact System.calls_of_work _ i (by omega)

namespace Chain
variable {s s' : SharedRegistry} {turns : List Turn}

theorem later (h : Chain s turns s') : Later s s' := by
  induction h with
  | nil s => exact .refl s
  | cons t turns s' hserve _ ih =>
    have hserved := Served.of_serve _ _ _ _ hserve
    exact (Served.later _ _ _ _ hserved).trans ih

theorem sound (h : Chain s turns s') (hs : s.Sound) (hholds : ∀ t ∈ turns, t.call.Holds s) :
    s'.Sound := by
  induction h with
  | nil s => exact hs
  | cons t turns s' hserve _ ih =>
    have hserved := Served.of_serve _ _ _ _ hserve
    have hlater := Served.later _ _ _ _ hserved
    refine ih (Served.sound _ _ _ _ hserved hs (hholds t (List.mem_cons_self))) fun u hu => ?_
    exact (hholds u (List.mem_cons_of_mem t hu)).later _ _ hlater

theorem entries (h : Chain s turns s') :
    s'.entries = s.entries ++ turns.flatMap (·.answer.won) := by
  induction h with
  | nil s => exact (List.append_nil _).symm
  | cons t turns s' hserve _ ih =>
    have hserved := Served.of_serve _ _ _ _ hserve
    rw [ih, Served.entries _ _ _ _ hserved, List.flatMap_cons, List.append_assoc]

theorem frozen (h : Chain s turns s') :
    s'.frozen = (s.frozen || turns.any (·.call = .freeze)) := by
  induction h with
  | nil s => exact (Bool.or_false _).symm
  | cons t turns s' hserve _ ih =>
    have hserved := Served.of_serve _ _ _ _ hserve
    rw [ih, Served.frozen _ _ _ _ hserved, List.any_cons, Bool.or_assoc]

theorem split (earlier later : List Turn) (t : Turn) (h : Chain s (earlier ++ t :: later) s') :
    Chain s earlier t.before ∧ Served t.before t.call (t.after, t.answer) ∧
      Chain t.after later s' := by
  induction earlier generalizing s with
  | nil =>
    cases h with
    | cons _ _ _ hserve hrest =>
      exact ⟨.nil t.before, Served.of_serve _ _ _ _ hserve, hrest⟩
  | cons e earlier ih =>
    cases h with
    | cons _ _ _ hserve hrest =>
      obtain ⟨hearlier, ht, hlater⟩ := ih hrest
      exact ⟨.cons e earlier t.before hserve hearlier, ht, hlater⟩

end Chain

end DocNavigation.SharedRegistry
