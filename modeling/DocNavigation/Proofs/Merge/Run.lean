import DocNavigation.Merge
import Mathlib.Data.List.Induction

/-!
What merging has chosen after any number of units. The names stand where they were met first, the
units are the last or the first of their names, and a name counts as replaced from its second
occurrence on.
-/

namespace DocNavigation.Merge

/-- The names at the places where they were met exactly so many times before. -/
def metAfter (times : Nat) (names : List String) : List String :=
  (names.zipIdx.filter fun (n, i) => (names.take i).count n = times).map (·.1)

theorem metAfter_append (times : Nat) (names : List String) (n : String) :
    metAfter times (names ++ [n]) =
      metAfter times names ++ if names.count n = times then [n] else [] := by
  have hold : names.zipIdx.filter (fun p => decide (((names ++ [n]).take p.2).count p.1 = times)) =
      names.zipIdx.filter (fun p => decide ((names.take p.2).count p.1 = times)) := by
    refine List.filter_congr fun p hp => ?_
    have hi : p.2 < names.length := (List.mk_mem_zipIdx_iff_getElem?.mp hp |> List.getElem?_eq_some_iff.mp).1
    rw [List.take_append_of_le_length (by omega)]
  rw [metAfter, List.zipIdx_append, List.filter_append, List.map_append]
  change (names.zipIdx.filter _).map _ ++ _ = _
  rw [hold, metAfter]
  by_cases hn : names.count n = times <;> simp [hn]

theorem mem_metAfter (times : Nat) (names : List String) (n : String) :
    n ∈ metAfter times names ↔ times < names.count n := by
  induction names using List.reverseRecOn with
  | nil => simp [metAfter]
  | append_singleton names m ih =>
    rw [metAfter_append, List.mem_append, ih, List.count_append]
    by_cases hm : m = n
    · subst hm
      by_cases hcount : names.count m = times
      · simp [hcount]
      · simp [hcount]
        omega
    · have hzero : List.count n [m] = 0 := by simp [hm]
      by_cases hcount : names.count m = times
      · simp [hcount, hzero, Ne.symm hm]
      · simp [hcount, hzero]

theorem metAfter_nodup (times : Nat) (names : List String) : (metAfter times names).Nodup := by
  induction names using List.reverseRecOn with
  | nil => exact List.nodup_nil
  | append_singleton names m ih =>
    rw [metAfter_append]
    by_cases hcount : names.count m = times
    · rw [if_pos hcount, List.nodup_append]
      refine ⟨ih, by simp, ?_⟩
      rintro a ha b hb rfl
      rw [List.mem_singleton.mp hb, mem_metAfter] at ha
      omega
    · rw [if_neg hcount, List.append_nil]
      exact ih

theorem metAfter_of_nodup (names : List String) (h : names.Nodup) : metAfter 0 names = names := by
  induction names using List.reverseRecOn with
  | nil => rfl
  | append_singleton names m ih =>
    rw [List.nodup_append] at h
    have hnew : m ∉ names := fun hm => h.2.2 m hm m (by simp) rfl
    rw [metAfter_append, ih h.1, if_pos (List.count_eq_zero.mpr hnew)]

theorem findSome?_congr {α β : Type} (as : List α) (f g : α → Option β) (h : ∀ a ∈ as, f a = g a) :
    as.findSome? f = as.findSome? g := by
  induction as with
  | nil => rfl
  | cons a as ih =>
    rw [List.forall_mem_cons] at h
    rw [List.findSome?_cons, List.findSome?_cons, h.1, ih h.2]

/-- The items with those first that the priority prefers. -/
def order {α : Type} (priority : Priority) (as : List α) : List α :=
  match priority with
  | .lastWins => as.reverse
  | .firstWins => as

theorem mem_order {α : Type} (priority : Priority) (as : List α) (a : α) :
    a ∈ order priority as ↔ a ∈ as := by
  cases priority <;> simp [order]

theorem order_flatMap {α β : Type} (priority : Priority) (as : List α) (f : α → List β) :
    order priority (as.flatMap f) = (order priority as).flatMap fun a => order priority (f a) := by
  cases priority with
  | lastWins => exact List.reverse_flatMap ..
  | firstWins => rfl

/-- The unit of a name that the priority prefers among units that are met one after the other. -/
def preferred (priority : Priority) (units : List Component) (n : String) : Option Component :=
  (order priority units).find? (·.name = n)

theorem preferred_append (priority : Priority) (units : List Component) (u : Component)
    (n : String) : preferred priority (units ++ [u]) n =
      match priority with
      | .lastWins => if u.name = n then some u else preferred .lastWins units n
      | .firstWins => (preferred .firstWins units n).or (if u.name = n then some u else none) := by
  cases priority with
  | lastWins =>
    by_cases hu : u.name = n <;> simp [preferred, order, hu]
  | firstWins =>
    simp only [preferred, order, List.find?_append]
    by_cases hu : u.name = n <;> simp [hu]

theorem mem_of_preferred (priority : Priority) (units : List Component) (n : String)
    (u : Component) (h : preferred priority units n = some u) : u ∈ units :=
  (mem_order priority units u).mp (List.mem_of_find?_eq_some h)

theorem preferred_flatMap {α : Type} (priority : Priority) (as : List α) (f : α → List Component)
    (n : String) : preferred priority (as.flatMap f) n =
      (order priority as).findSome? fun a => preferred priority (f a) n := by
  rw [preferred, order_flatMap, List.find?_flatMap]
  rfl

/-- The state is that after these units. -/
structure Met (priority : Priority) (s : State) (units : List Component) : Prop where
  names : s.chosen.map (·.name) = metAfter 0 (units.map (·.name))
  chosen : ∀ n, s.chosen.find? (·.name = n) = preferred priority units n
  replaced : s.replaced = metAfter 1 (units.map (·.name))

theorem met_nil (priority : Priority) : Met priority {} [] := by
  refine ⟨rfl, ?_, rfl⟩
  intro n
  cases priority <;> rfl

theorem names_replace (units : List Component) (u : Component) :
    (replace units u).map (·.name) = units.map (·.name) := by
  induction units with
  | nil => rfl
  | cons v units ih =>
    have ih : (units.map fun v => if v.name = u.name then u else v).map (·.name) =
      units.map (·.name) := ih
    rw [replace, List.map_cons, List.map_cons, ih, List.map_cons]
    by_cases hv : v.name = u.name <;> simp [hv]

theorem find?_replace (units : List Component) (u : Component) (n : String) :
    (replace units u).find? (·.name = n) =
      if u.name = n then (units.find? (·.name = n)).map (fun _ => u)
      else units.find? (·.name = n) := by
  unfold replace
  induction units with
  | nil => simp
  | cons v units ih =>
    rw [List.map_cons, List.find?_cons, List.find?_cons, ih]
    by_cases hv : v.name = u.name
    · rw [if_pos hv, hv]
      by_cases hu : u.name = n <;> simp [hu]
    · rw [if_neg hv]
      by_cases hn : v.name = n
      · have hu : u.name ≠ n := fun hu => hv (hn.trans hu.symm)
        simp [hn, hu]
      · simp [hn]

theorem any_chosen (priority : Priority) (s : State) (units : List Component)
    (h : Met priority s units) (n : String) :
    s.chosen.any (·.name = n) = true ↔ 0 < (units.map (·.name)).count n := by
  rw [← mem_metAfter, ← h.names]
  simp

theorem find?_chosen_isSome (priority : Priority) (s : State) (units : List Component)
    (h : Met priority s units) (n : String) :
    (preferred priority units n).isSome = s.chosen.any (·.name = n) := by
  rw [← h.chosen, Bool.eq_iff_iff, List.find?_isSome, List.any_eq_true]

theorem contains_replaced (priority : Priority) (s : State) (units : List Component)
    (h : Met priority s units) (n : String) :
    s.replaced.contains n = true ↔ 1 < (units.map (·.name)).count n := by
  rw [List.contains_iff_mem, h.replaced, mem_metAfter]

section
variable (priority : Priority) (s : State) (units : List Component) (u : Component)
  (h : Met priority s units)
include h

/-- A name that is met again keeps its place and is reported the first time, whatever stands there
now. -/
theorem met_again (hold : s.chosen.any (·.name = u.name) = true) (chosen : List Component)
    (hnames : chosen.map (·.name) = s.chosen.map (·.name))
    (hchosen : ∀ n, chosen.find? (·.name = n) = preferred priority (units ++ [u]) n)
    (notes : List Note) : Met priority
      ⟨chosen, if s.replaced.contains u.name then s.replaced else s.replaced ++ [u.name], notes⟩
      (units ++ [u]) := by
  have hcount := (any_chosen priority s units h u.name).mp hold
  refine ⟨?_, hchosen, ?_⟩
  · rw [hnames, List.map_append, List.map_singleton, metAfter_append, if_neg (by omega), h.names,
      List.append_nil]
  · rw [List.map_append, List.map_singleton, metAfter_append, ← h.replaced]
    by_cases htwice : s.replaced.contains u.name = true
    · have hmany := (contains_replaced priority s units h u.name).mp htwice
      rw [if_pos htwice, if_neg (by omega), List.append_nil]
    · have hfew := mt (contains_replaced priority s units h u.name).mpr htwice
      rw [if_neg htwice, if_pos (by omega)]

/-- A new name goes to the end. -/
theorem met_first (hnew : s.chosen.any (·.name = u.name) ≠ true) :
    Met priority { s with chosen := s.chosen ++ [u] } (units ++ [u]) := by
  have hcount : (units.map (·.name)).count u.name = 0 := by
    have := mt (any_chosen priority s units h u.name).mpr hnew
    omega
  have hnone : preferred priority units u.name = none := by
    rw [← Option.not_isSome_iff_eq_none, find?_chosen_isSome priority s units h u.name]
    exact hnew
  refine ⟨?_, ?_, ?_⟩
  · rw [List.map_append, List.map_append, List.map_singleton, metAfter_append, if_pos hcount,
      h.names]
  · intro n
    rw [List.find?_append, h.chosen, preferred_append]
    by_cases hn : u.name = n
    · subst hn
      cases priority <;> simp [hnone]
    · cases priority <;> simp [hn]
  · rw [List.map_append, List.map_singleton, metAfter_append, if_neg (by omega), List.append_nil]
    exact h.replaced

/-- One more unit. -/
theorem met_meet (source : Nat) : Met priority (meet priority source s u) (units ++ [u]) := by
  by_cases hold : s.chosen.any (·.name = u.name) = true
  · have hsome := find?_chosen_isSome priority s units h u.name
    rw [hold] at hsome
    obtain ⟨v, hv⟩ := Option.isSome_iff_exists.mp hsome
    rw [meet, if_pos hold]
    cases priority with
    | lastWins =>
      refine met_again _ s units u h hold _ (names_replace s.chosen u) (fun n => ?_) _
      rw [find?_replace, preferred_append, h.chosen]
      by_cases hn : u.name = n
      · subst hn
        simp [hv]
      · simp [hn]
    | firstWins =>
      refine met_again _ s units u h hold s.chosen rfl (fun n => ?_) _
      rw [preferred_append, h.chosen]
      by_cases hn : u.name = n
      · subst hn
        simp [hv]
      · simp [hn]
  · rw [meet, if_neg hold]
    exact met_first priority s units u h hold

end

theorem met_meetSource (priority : Priority) (s : State) (units : List Component)
    (source : Registry × Nat) (h : Met priority s units) :
    Met priority (meetSource priority s source) (units ++ source.1.units) := by
  obtain ⟨r, number⟩ := source
  unfold meetSource
  induction r.units generalizing s units with
  | nil =>
    rw [List.append_nil]
    exact h
  | cons u us ih =>
    have hnext := ih (meet priority number s u) (units ++ [u])
      (met_meet priority s units u h number)
    rw [List.append_assoc] at hnext
    exact hnext

/-- All sources one after the other. -/
theorem met_run (sources : List Registry) (priority : Priority) :
    Met priority (run sources priority) (sources.flatMap (·.units)) := by
  -- the induction is on the sources that are left, so it starts from any state
  have hfrom : ∀ (s : State) (units : List Component) (number : Nat), Met priority s units →
      Met priority ((sources.zipIdx number).foldl (meetSource priority) s)
        (units ++ sources.flatMap (·.units)) := by
    induction sources with
    | nil =>
      intro s units number h
      rw [List.flatMap_nil, List.append_nil]
      exact h
    | cons r sources ih =>
      intro s units number h
      rw [List.flatMap_cons, ← List.append_assoc]
      exact ih _ _ _ (met_meetSource priority s units (r, number) h)
  exact hfrom {} [] 1 (met_nil priority)

end DocNavigation.Merge
