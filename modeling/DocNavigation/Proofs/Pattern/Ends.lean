import DocNavigation.Pattern.Read
import DocNavigation.Pattern.Search
import Mathlib.Data.List.Infix
import Mathlib.Data.List.Nodup

/-!
What a match leaves of the text. Without captured groups the places where a match can end are told
by the rests of the text after them, and so is every form that a glob is spelled with.
-/

namespace DocNavigation.Pattern

/-- A place in a text, of which the rest is a suffix, without captured groups. -/
def Spot.IsWithin (cs : List Char) (s : Spot) : Prop :=
  s.groups = [] ∧ s.after <:+ cs

section
variable (s : Spot) (a b : Node)

theorem Node.ends_set (cs : CharSet) : (Node.set cs).ends s =
    match s.after with
    | [] => []
    | c :: _ => if cs.contains c then [s.advance 1] else [] := rfl

theorem Node.ends_any (newlines : Bool) : (Node.any newlines).ends s =
    match s.after with
    | [] => []
    | c :: _ => if c ≠ '\n' ∨ newlines then [s.advance 1] else [] := rfl

theorem Node.ends_anchor (x : Anchor) :
    (Node.anchor x).ends s = if x.holds s then [s] else [] := rfl

theorem Node.ends_seq : (Node.seq a b).ends s = distinct ((a.ends s).flatMap b.ends) := rfl

theorem Node.ends_rep (least : Nat) (most : Option Nat) (greed : Greed) :
    (Node.rep least most greed a).ends s = repeated a.ends least most greed s := rfl

theorem Node.ends_never : (Node.look true true .empty).ends s = [] := rfl

theorem Node.ends_atomic : (Node.atomic a).ends s = (a.ends s).take 1 := rfl

end

section
variable (cs : List Char) (spots kept : List Spot)

theorem foldl_distinct : (spots.foldl (fun kept s => if kept.any s.alike then kept else s :: kept)
    kept).reverse = List.eraseDupsBy.loop Spot.alike spots kept := by
  induction spots generalizing kept with
  | nil => rfl
  | cons s spots ih =>
    rw [List.foldl_cons, ih, List.eraseDupsBy.loop]
    split
    case isTrue h => simp [h]
    case isFalse h => simp [h]

theorem Spot.alike_eq (s t : Spot) (hs : s.IsWithin cs) (ht : t.IsWithin cs) :
    s.alike t = (s.after == t.after) := by
  rw [Spot.alike, hs.1, ht.1, Bool.eq_iff_iff, beq_iff_eq]
  simp only [decide_true, Bool.and_true, decide_eq_true_eq]
  refine ⟨fun hlength => ?_, congrArg List.length⟩
  exact (List.suffix_of_suffix_length_le hs.2 ht.2 hlength.le).eq_of_length hlength

theorem map_eraseDups_loop (h : ∀ s ∈ spots, s.IsWithin cs) (hkept : ∀ s ∈ kept, s.IsWithin cs) :
    (List.eraseDupsBy.loop Spot.alike spots kept).map Spot.after =
      List.eraseDupsBy.loop (· == ·) (spots.map Spot.after) (kept.map Spot.after) := by
  induction spots generalizing kept with
  | nil => simp [List.eraseDupsBy.loop]
  | cons s spots ih =>
    rw [List.forall_mem_cons] at h
    have hany : (kept.map Spot.after).any (s.after == ·) = kept.any s.alike := by
      rw [List.any_map, Bool.eq_iff_iff, List.any_eq_true, List.any_eq_true]
      refine exists_congr fun t => and_congr_right fun ht => ?_
      rw [Spot.alike_eq cs s t h.1 (hkept t ht)]
      rfl
    rw [List.map_cons, List.eraseDupsBy.loop, List.eraseDupsBy.loop, hany]
    split
    · exact ih kept h.2 hkept
    · exact ih (s :: kept) h.2 (List.forall_mem_cons.mpr ⟨h.1, hkept⟩)

/-- The rests of distinct places are the distinct rests, the first of equal ones kept. -/
theorem map_distinct (h : ∀ s ∈ spots, s.IsWithin cs) :
    (distinct spots).map Spot.after = (spots.map Spot.after).eraseDups := by
  rw [distinct, foldl_distinct]
  exact map_eraseDups_loop cs spots [] h (by simp)

theorem mem_eraseDups_loop (s : Spot) (hs : s ∈ List.eraseDupsBy.loop Spot.alike spots kept) :
    s ∈ spots ∨ s ∈ kept := by
  induction spots generalizing kept with
  | nil => simpa [List.eraseDupsBy.loop] using hs
  | cons t spots ih =>
    rw [List.eraseDupsBy.loop] at hs
    split at hs
    · exact (ih kept hs).imp_left (List.mem_cons_of_mem t)
    · rcases ih (t :: kept) hs with h | h
      · exact .inl (List.mem_cons_of_mem t h)
      · rcases List.mem_cons.mp h with rfl | h
        · exact .inl (List.mem_cons_self ..)
        · exact .inr h

theorem mem_of_mem_distinct (s : Spot) (hs : s ∈ distinct spots) : s ∈ spots := by
  rw [distinct, foldl_distinct] at hs
  exact (mem_eraseDups_loop spots [] s hs).resolve_right (by simp)

end

/-- What the matches from a place leave, the preferred ones first. -/
structure Leaves (n : Node) (f : List Char → List (List Char)) : Prop where
  within : ∀ s, s.groups = [] → ∀ t ∈ n.ends s, t.IsWithin s.after
  rests : ∀ s, s.groups = [] → (n.ends s).map Spot.after = f s.after

namespace Leaves

theorem empty : Leaves .empty fun cs => [cs] where
  within := by
    rintro s hs t ht
    rw [List.mem_singleton.mp ht]
    exact ⟨hs, List.suffix_rfl⟩
  rests _ _ := rfl

/-- One character, of those that are accepted. -/
def step (accepts : Char → Bool) : List Char → List (List Char)
  | [] => []
  | c :: cs => if accepts c then [cs] else []

theorem of_step (n : Node) (accepts : Char → Bool)
    (h : ∀ s, n.ends s = match s.after with
      | [] => []
      | c :: _ => if accepts c then [s.advance 1] else []) : Leaves n (step accepts) where
  within := by
    rintro ⟨before, after, groups⟩ hs t ht
    rw [h] at ht
    cases after with
    | nil => simp at ht
    | cons c cs =>
      change t ∈ (if accepts c then [_] else []) at ht
      split at ht
      · rw [List.mem_singleton.mp ht]
        exact ⟨hs, List.suffix_cons c cs⟩
      · simp at ht
  rests := by
    rintro ⟨before, after, groups⟩ hs
    rw [h]
    cases after with
    | nil => rfl
    | cons c cs =>
      change (if accepts c then [_] else []).map Spot.after = if accepts c then [cs] else []
      split <;> rfl

theorem never : Leaves (.look true true .empty) fun _ => [] where
  within _ _ _ ht := absurd ht (by simp [Node.ends_never])
  rests _ _ := rfl

theorem textEnd : Leaves (.anchor .textEnd) fun cs => if cs = [] then [[]] else [] where
  within := by
    rintro s hs t ht
    rw [Node.ends_anchor] at ht
    split at ht
    · rw [List.mem_singleton.mp ht]
      exact ⟨hs, List.suffix_rfl⟩
    · simp at ht
  rests := by
    rintro ⟨before, after, groups⟩ hs
    cases after <;> rfl

variable (a b : Node) (f g : List Char → List (List Char))

theorem seq (ha : Leaves a f) (hb : Leaves b g) :
    Leaves (.seq a b) fun cs => ((f cs).flatMap g).eraseDups := by
  have hwithin : ∀ s, s.groups = [] → ∀ t ∈ (a.ends s).flatMap b.ends, t.IsWithin s.after := by
    intro s hs t ht
    obtain ⟨u, hu, ht⟩ := List.mem_flatMap.mp ht
    have huwithin := ha.within s hs u hu
    have htwithin := hb.within u huwithin.1 t ht
    exact ⟨htwithin.1, htwithin.2.trans huwithin.2⟩
  refine ⟨fun s hs t ht => hwithin s hs t (mem_of_mem_distinct _ t ht), fun s hs => ?_⟩
  have hrests : ∀ u ∈ a.ends s, (b.ends u).map Spot.after = g u.after :=
    fun u hu => hb.rests u (ha.within s hs u hu).1
  rw [Node.ends_seq, map_distinct s.after _ (hwithin s hs), List.map_flatMap,
    List.flatMap_congr hrests, ← ha.rests s hs, List.flatMap_map]

theorem group (ha : Leaves a f) : Leaves (.group none a) f where
  within := ha.within
  rests := ha.rests

theorem atomic (ha : Leaves a f) : Leaves (.atomic a) fun cs => (f cs).take 1 where
  within s hs t ht := ha.within s hs t (List.mem_of_mem_take ht)
  rests s hs := by rw [← ha.rests s hs, Node.ends_atomic, List.map_take]

end Leaves

theorem nodup_tails (cs : List Char) : cs.tails.Nodup := by
  induction cs with
  | nil => simp
  | cons c cs ih =>
    rw [List.tails_cons, List.nodup_cons, List.mem_tails]
    exact ⟨fun h => absurd h.length_le (by simp), ih⟩

theorem head?_eraseDups (rests : List (List Char)) : rests.eraseDups.head? = rests.head? := by
  cases rests with
  | nil => rfl
  | cons cs rests => rw [List.eraseDups_cons]; rfl

theorem nodup_take_one (rests : List (List Char)) : (rests.take 1).Nodup := by
  cases rests <;> simp

theorem eraseDups_of_nodup (rests : List (List Char)) (h : rests.Nodup) : rests.eraseDups = rests := by
  induction rests with
  | nil => rfl
  | cons cs rests ih =>
    rw [List.nodup_cons] at h
    have hfilter : rests.filter (fun ds => !ds == cs) = rests := by
      refine List.filter_eq_self.mpr fun ds hds => ?_
      have hne : ds ≠ cs := fun heq => h.1 (heq ▸ hds)
      simpa using hne
    rw [List.eraseDups_cons, hfilter, ih h.2]

/-- A sequence from its first part, none of whose rests comes twice. -/
theorem Leaves.cons (n : Node) (ns : List Node) (f g : List Char → List (List Char))
    (hn : Leaves n f) (hnodup : ∀ cs, (f cs).Nodup) (hns : Leaves (sequence ns) g) :
    Leaves (sequence (n :: ns)) fun cs => ((f cs).flatMap g).eraseDups := by
  cases ns with
  | nil =>
    have hself : ∀ cs, g cs = [cs] := fun cs => (hns.rests ⟨[], cs, []⟩ rfl).symm
    have hsame : (fun cs => ((f cs).flatMap g).eraseDups) = f := by
      funext cs
      rw [List.flatMap_congr fun rest _ => hself rest, List.flatMap_singleton',
        eraseDups_of_nodup _ (hnodup cs)]
    rw [hsame]
    exact hn
  | cons m ns => exact .seq _ _ _ _ hn hns

/-- The tails of a text in the order in which a walk over it lists them. -/
def walked (isLazy : Bool) (cs : List Char) : List (List Char) :=
  if isLazy then cs.tails else cs.tails.reverse

theorem mem_walked (isLazy : Bool) (rest cs : List Char) : rest ∈ walked isLazy cs ↔ rest <:+ cs := by
  cases isLazy <;> simp [walked]

theorem nodup_walked (isLazy : Bool) (cs : List Char) : (walked isLazy cs).Nodup := by
  cases isLazy
  · exact List.nodup_reverse.mpr (nodup_tails cs)
  · exact nodup_tails cs

section
variable (isLazy : Bool) (fuel : Nat) (before : List Char) (c : Char) (cs : List Char)
  (groups : List (Nat × List Char)) (visited : Visited)

theorem explore_end (s : Spot) (hend : s.after = [])
    (hnew : visited.any (fun (t, l) => s.alike t && l = none) = false) :
    (explore (Node.any true).ends isLazy (fuel + 1) none s visited).2 = [s] := by
  have hstep : (Node.any true).ends s = [] := by rw [Node.ends_any, hend]
  rw [explore]
  simp only [hnew, hstep, Bool.false_eq_true, if_false, reduceCtorEq, List.foldl_nil,
    List.nil_append, ite_self]

theorem explore_next :
    let s : Spot := ⟨before, c :: cs, groups⟩
    let more := explore (Node.any true).ends isLazy fuel none ⟨c :: before, cs, groups⟩
      ((s, none) :: visited)
    visited.any (fun (t, l) => s.alike t && l = none) = false →
    (explore (Node.any true).ends isLazy (fuel + 1) none s visited).2 =
      if isLazy then s :: more.2 else more.2 ++ [s] := by
  intro s more hnew
  have hstep : (Node.any true).ends s = [⟨c :: before, cs, groups⟩] := by
    simp [s, Node.ends_any, Spot.advance]
  have hshorter : cs.length < s.after.length := Nat.lt_succ_self _
  rw [explore]
  simp only [hnew, hstep, Bool.false_eq_true, if_false, reduceCtorEq, List.foldl_cons,
    List.foldl_nil, List.nil_append, Option.map_none, if_pos hshorter]
  rfl

/-- From a place that no place visited is behind, the rests are the tails. -/
theorem explore_any (s : Spot) (hgroups : s.groups = []) (hfuel : s.after.length < fuel)
    (hvisited : ∀ v ∈ visited, s.after.length < v.1.after.length) :
    let found := (explore (Node.any true).ends isLazy fuel none s visited).2
    (∀ t ∈ found, t.IsWithin s.after) ∧ found.map Spot.after = walked isLazy s.after := by
  induction fuel generalizing s visited with
  | zero => exact absurd hfuel (by omega)
  | succ fuel ih =>
    -- every place visited has more of the text left than this one
    have hnew : visited.any (fun (t, l) => s.alike t && l = none) = false := by
      rw [List.any_eq_false]
      rintro ⟨t, l⟩ ht
      have hlength := hvisited _ ht
      simp [Spot.alike, hlength.ne]
    have hself : s.IsWithin s.after := ⟨hgroups, List.suffix_rfl⟩
    obtain ⟨before, after, groups⟩ := s
    cases after with
    | nil =>
      rw [explore_end isLazy fuel visited _ rfl hnew]
      cases isLazy <;> simpa [walked] using hself
    | cons c cs =>
      have hnext := ih ((⟨before, c :: cs, groups⟩, none) :: visited) ⟨c :: before, cs, groups⟩
        hgroups (by simpa using hfuel)
        (List.forall_mem_cons.mpr ⟨by simp, fun v hv => (Nat.lt_succ_self _).trans (hvisited v hv)⟩)
      obtain ⟨hwithin, hrests⟩ := hnext
      have hmore : ∀ t : Spot, t.IsWithin cs → t.IsWithin (c :: cs) :=
        fun t ht => ⟨ht.1, ht.2.trans (List.suffix_cons c cs)⟩
      rw [explore_next isLazy fuel before c cs groups visited hnew]
      cases isLazy with
      | true =>
        refine ⟨List.forall_mem_cons.mpr ⟨hself, fun t ht => hmore t (hwithin t ht)⟩, ?_⟩
        simpa [walked] using hrests
      | false =>
        refine ⟨fun t ht => ?_, by simpa [walked] using hrests⟩
        rcases List.mem_append.mp ht with ht | ht
        · exact hmore t (hwithin t ht)
        · exact List.mem_singleton.mp ht ▸ hself

end

/-- Any characters, as few or as many as can be. -/
theorem Leaves.any (greed : Greed) (h : greed ≠ .possessive) :
    Leaves (.rep 0 none greed (.any true)) (walked (greed = .lazy)) := by
  have hends : ∀ s, (Node.rep 0 none greed (.any true)).ends s =
      distinct (explore (Node.any true).ends (greed = .lazy) (s.after.length + 1) none s []).2 := by
    intro s
    simp only [Node.ends_rep, repeated, if_neg h, iterate, List.foldl_cons, List.foldl_nil,
      Option.map_none, List.nil_append]
  have hwalk := fun (s : Spot) (hs : s.groups = []) =>
    explore_any (greed = .lazy) (s.after.length + 1) [] s hs (Nat.lt_succ_self _) (by simp)
  refine ⟨fun s hs t ht => ?_, fun s hs => ?_⟩
  · rw [hends] at ht
    exact (hwalk s hs).1 t (mem_of_mem_distinct _ t ht)
  · rw [hends, map_distinct s.after _ (hwalk s hs).1, (hwalk s hs).2,
      eraseDups_of_nodup _ (nodup_walked _ _)]

theorem mem_spots (before cs : List Char) (s : Spot) (h : s ∈ spots before cs) :
    s.groups = [] ∧ s.after <:+ cs := by
  induction cs generalizing before with
  | nil =>
    rw [List.mem_singleton.mp h]
    exact ⟨rfl, List.suffix_rfl⟩
  | cons c cs ih =>
    rcases List.mem_cons.mp h with rfl | h
    · exact ⟨rfl, List.suffix_rfl⟩
    · have hs := ih (c :: before) h
      exact ⟨hs.1, hs.2.trans (List.suffix_cons c cs)⟩

theorem exists_spot (before cs rest : List Char) (h : rest <:+ cs) :
    ∃ s ∈ spots before cs, s.after = rest := by
  induction cs generalizing before with
  | nil =>
    rw [List.suffix_nil.mp h]
    exact ⟨_, List.mem_singleton_self _, rfl⟩
  | cons c cs ih =>
    rcases List.suffix_cons_iff.mp h with rfl | h
    · exact ⟨_, List.mem_cons_self .., rfl⟩
    · obtain ⟨s, hs, hrest⟩ := ih (c :: before) h
      exact ⟨s, List.mem_cons_of_mem _ hs, hrest⟩

/-- A pattern that is searched for may leave out a part at the front. -/
theorem Leaves.found_iff (n : Node) (f : List Char → List (List Char)) (h : Leaves n f)
    (text : String) : n.found text = true ↔ ∃ rest, rest <:+ text.toList ∧ f rest ≠ [] := by
  have hends : ∀ s ∈ spots [] text.toList, n.ends s ≠ [] ↔ f s.after ≠ [] := by
    intro s hs
    rw [← h.rests s (mem_spots _ _ s hs).1, ne_eq, ne_eq, List.map_eq_nil_iff]
  rw [Node.found, List.any_eq_true]
  simp only [Bool.not_eq_true', List.isEmpty_eq_false_iff]
  constructor
  · rintro ⟨s, hs, hne⟩
    exact ⟨s.after, (mem_spots _ _ s hs).2, (hends s hs).mp hne⟩
  · rintro ⟨rest, hrest, hne⟩
    obtain ⟨s, hs, rfl⟩ := exists_spot [] text.toList rest hrest
    exact ⟨s, hs, (hends s hs).mpr hne⟩

end DocNavigation.Pattern
