import DocNavigation.Collect
import Mathlib.Data.List.Basic

/-!
The two loops of a collection. Each goes on until the wish to stop is seen, so each deals with the
beginning of its list.
-/

namespace DocNavigation.Collection

/-- How many of `n` looks, from the given one on, come before the wish to stop is seen. -/
def passed (isSet : Nat → Bool) : Nat → Nat → Nat
  | _, 0 => 0
  | look, n + 1 => if isSet look then 0 else passed isSet (look + 1) n + 1

section
variable (isSet : Nat → Bool)

theorem passed_le (look n : Nat) : passed isSet look n ≤ n := by
  induction n generalizing look with
  | zero => exact Nat.le_refl 0
  | succ n ih =>
    rw [passed]
    split
    · exact Nat.zero_le _
    · exact Nat.succ_le_succ (ih (look + 1))

theorem handOut_eq (look : Nat) (ds : List Delivery) :
    handOut isSet look ds = (ds.take (passed isSet look ds.length),
      decide (passed isSet look ds.length < ds.length)) := by
  induction ds generalizing look with
  | nil => rfl
  | cons d ds ih =>
    rw [handOut, List.length_cons, passed]
    split
    · simp
    · simp [ih]

theorem take_cancelled (c : Collection) (d : Delivery) : (c.take d).cancelled = c.cancelled := by
  rw [take]
  split
  · rw [add]
    split <;> rfl
  · rfl

theorem takeBack_eq (look : Nat) (ds : List Delivery) (c : Collection) :
    takeBack isSet look ds c = { (ds.take (passed isSet look ds.length)).foldl take c with
      cancelled := c.cancelled || decide (passed isSet look ds.length < ds.length) } := by
  induction ds generalizing look c with
  | nil => simp [takeBack, passed]
  | cons d ds ih =>
    rw [takeBack, List.length_cons, passed]
    split
    · simp
    · rw [ih, take_cancelled]
      simp

/-- How many of `n` tasks are taken back. -/
def processed (n : Nat) : Nat :=
  let handed := passed isSet 0 n
  passed isSet (handed + (decide (handed < n)).toNat) handed

theorem processed_le (n : Nat) : processed isSet n ≤ passed isSet 0 n :=
  passed_le isSet _ _

/-- The tasks that are handed out. -/
def handed (tasks : List Delivery) : List Delivery :=
  tasks.take (passed isSet 0 tasks.length)

/-- The tasks that are taken back. -/
def back (finishing : List Delivery → List Delivery) (tasks : List Delivery) : List Delivery :=
  (finishing (handed isSet tasks)).take (processed isSet tasks.length)

theorem handed_length (tasks : List Delivery) :
    (handed isSet tasks).length = passed isSet 0 tasks.length := by
  rw [handed, List.length_take, Nat.min_eq_left (passed_le isSet 0 tasks.length)]

theorem back_length (finishing : List Delivery → List Delivery)
    (hfinishing : ∀ ds, (finishing ds).Perm ds) (tasks : List Delivery) :
    (back isSet finishing tasks).length = processed isSet tasks.length := by
  rw [back, List.length_take, (hfinishing _).length_eq, handed_length,
    Nat.min_eq_left (processed_le isSet tasks.length)]

theorem collect_eq (target : Registry) (tasks : List Delivery)
    (finishing : List Delivery → List Delivery) (hfinishing : ∀ ds, (finishing ds).Perm ds)
    (freeze : Bool) : ∃ stopped, collect target tasks isSet finishing freeze =
      let c : Collection := { (back isSet finishing tasks).foldl take
          { registry := target, cancelled := stopped } with
        cancelled := decide (processed isSet tasks.length < tasks.length) }
      { c with
        registry := if freeze then c.registry.freeze else c.registry
        notes := c.notes ++ [c.closing] } := by
  have hlength : (finishing (handed isSet tasks)).length = passed isSet 0 tasks.length := by
    rw [(hfinishing _).length_eq, handed_length]
  have hcancelled : (decide (passed isSet 0 tasks.length < tasks.length) ||
      decide (processed isSet tasks.length < passed isSet 0 tasks.length)) =
        decide (processed isSet tasks.length < tasks.length) := by
    have hle := passed_le isSet 0 tasks.length
    have hle' := processed_le isSet tasks.length
    rw [Bool.eq_iff_iff, Bool.or_eq_true, decide_eq_true_iff, decide_eq_true_iff,
      decide_eq_true_iff]
    omega
  have hhanded : handOut isSet 0 tasks =
      (handed isSet tasks, decide (passed isSet 0 tasks.length < tasks.length)) :=
    handOut_eq isSet 0 tasks
  refine ⟨decide (passed isSet 0 tasks.length < tasks.length), ?_⟩
  simp only [collect, hhanded, handed_length, takeBack_eq, hlength]
  rw [← hcancelled]
  rfl

variable (hstays : ∀ look, isSet look = true → isSet (look + 1) = true)
include hstays

theorem isSet_later (look later : Nat) (hle : look ≤ later) (h : isSet look = true) :
    isSet later = true := by
  induction hle with
  | refl => exact h
  | step _ ih => exact hstays _ ih

theorem lt_passed_iff (look n i : Nat) :
    i < passed isSet look n ↔ i < n ∧ isSet (look + i) = false := by
  induction n generalizing look i with
  | zero => simp [passed]
  | succ n ih =>
    rw [passed]
    by_cases hset : isSet look = true
    · have hlater := isSet_later isSet hstays look (look + i) (Nat.le_add_right _ _) hset
      simp [hset, hlater]
    · rw [if_neg hset]
      cases i with
      | zero => simp [eq_false_of_ne_true hset]
      | succ i =>
        rw [Nat.add_lt_add_iff_right, Nat.add_lt_add_iff_right, ih, Nat.add_right_comm]
        rfl

/-- The looks of the second loop come after `n` others, or after one that saw the wish to stop. -/
theorem lt_processed_iff (n i : Nat) :
    i < processed isSet n ↔ i < n ∧ isSet (n + i) = false := by
  obtain hall | hstop := Nat.eq_or_lt_of_le (passed_le isSet 0 n)
  · simp [processed, hall, lt_passed_iff isSet hstays]
  · -- the wish was seen while tasks were handed out, and is seen ever after
    have hset : isSet (passed isSet 0 n) = true := by
      by_contra hopen
      have hlt := (lt_passed_iff isSet hstays 0 n (passed isSet 0 n)).mpr
        ⟨hstop, by rw [Nat.zero_add]; exact eq_false_of_ne_true hopen⟩
      exact Nat.lt_irrefl _ hlt
    have hlater : ∀ look, passed isSet 0 n ≤ look → isSet look = true :=
      fun look hle => isSet_later isSet hstays _ look hle hset
    rw [processed, lt_passed_iff isSet hstays, hlater (n + i) (by omega), hlater _ (by omega)]
    simp

end

end DocNavigation.Collection
