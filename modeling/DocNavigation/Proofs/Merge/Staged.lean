import DocNavigation.Build.Run
import DocNavigation.Proofs.Host
import DocNavigation.Proofs.Merge.Run
import DocNavigation.Proofs.Registry.Add
import Mathlib.Data.List.Nodup

/-!
What a merge gives and reports, told from its sources: names in first-seen order, the unit of each
name whole from the last or the first source that holds it, and the names that were replaced. Hence
groups can be merged first and their merges after that, in the same order, with the same result. A
merge can also be merged again with the sources it came from, in the place of any of them: the names
keep their order, and the units the priority prefers are the same.
-/

namespace DocNavigation.Merge

/-- The unit of a name in the last or the first of the sources that hold it. -/
def winner (priority : Priority) (sources : List Registry) (n : String) : Option Component :=
  (order priority sources).findSome? (·.get? n)

/-- Among units with distinct names there is nothing to prefer. -/
theorem preferred_of_nodup (priority : Priority) (r : Registry) (h : r.names.Nodup) (n : String) :
    preferred priority r.units n = r.get? n := by
  cases priority with
  | firstWins => rfl
  | lastWins =>
    have hreverse : (r.units.reverse.map (·.name)).Nodup := by
      rw [List.map_reverse]
      exact List.nodup_reverse.mpr h
    refine Option.ext fun u => ?_
    change r.units.reverse.find? _ = _ ↔ r.units.find? _ = _
    rw [Component.find?_eq_some_iff _ hreverse, Component.find?_eq_some_iff _ h, List.mem_reverse]

theorem preferred_eq_winner (priority : Priority) (sources : List Registry)
    (h : ∀ r ∈ sources, r.names.Nodup) (n : String) :
    preferred priority (sources.flatMap (·.units)) n = winner priority sources n := by
  rw [preferred_flatMap]
  refine findSome?_congr _ _ _ fun r hr => ?_
  exact preferred_of_nodup priority r (h r ((mem_order priority sources r).mp hr)) n

theorem names_flatMap (sources : List Registry) :
    (sources.flatMap (·.units)).map (·.name) = sources.flatMap Registry.names :=
  List.map_flatMap ..

/-- Without repetitions in a source, a name occurs as often as there are sources with it. -/
theorem count_names (sources : List Registry) (h : ∀ r ∈ sources, r.names.Nodup) (n : String) :
    (sources.flatMap Registry.names).count n = (sources.filter (·.contains n)).length := by
  induction sources with
  | nil => rfl
  | cons r sources ih =>
    rw [List.forall_mem_cons] at h
    rw [List.flatMap_cons, List.count_append, ih h.2, List.filter_cons]
    by_cases hn : r.contains n = true
    · have hmem := (Registry.contains_iff r n).mp hn
      rw [if_pos hn, List.count_eq_one_of_mem h.1 hmem, List.length_cons, Nat.add_comm]
    · have hmem := mt (Registry.contains_iff r n).mpr hn
      rw [if_neg hn, List.count_eq_zero.mpr hmem, Nat.zero_add]

theorem names_merge (sources : List Registry) (priority : Priority) :
    (merge sources priority).registry.names = metAfter 0 (sources.flatMap Registry.names) := by
  rw [← names_flatMap, ← (met_run sources priority).names]
  exact Component.map_name_close _

theorem get?_merge (sources : List Registry) (priority : Priority) (n : String) :
    (merge sources priority).registry.get? n =
      (preferred priority (sources.flatMap (·.units)) n).map Component.close := by
  rw [← (met_run sources priority).chosen]
  exact Component.find?_map_close _ n

theorem replaced_merge (sources : List Registry) (priority : Priority) :
    (merge sources priority).report.replaced = metAfter 1 (sources.flatMap Registry.names) := by
  rw [← names_flatMap]
  exact (met_run sources priority).replaced

theorem ofString?_word (p : Priority) : Priority.ofString? p.word = some p := by
  cases p <;> decide

theorem ofString?_eq_none (word : String) (h : ∀ p : Priority, word ≠ p.word) :
    Priority.ofString? word = none := by
  rw [Priority.ofString?, List.find?_eq_none]
  intro p _ hp
  exact h p (of_decide_eq_true hp).symm

theorem run_mergeAll (sources : List Registry) (p : Priority) (host : Host) :
    (mergeAll sources p.word).run host =
      (.ok ((merge sources p).registry, (merge sources p).report),
        { host with journal := host.journal ++ (merge sources p).notes }) := by
  rw [mergeAll, ofString?_word]
  rfl

/-- The outcome of a merge. No source holds a name twice; merging closes the units that it takes and
does nothing else to them. -/
theorem mergeAll_spec (sources : List Registry) (h : ∀ r ∈ sources, r.names.Nodup) (host : Host) :
    (∀ p : Priority, ∃ r report host', (mergeAll sources p.word).run host = (.ok (r, report), host') ∧
      r.frozen = true ∧
      r.names = metAfter 0 (sources.flatMap Registry.names) ∧
      (∀ n, r.get? n = (winner p sources n).map Component.close) ∧
      report.replaced = metAfter 1 (sources.flatMap Registry.names) ∧
      report.replaced.Nodup ∧
      (∀ n, n ∈ report.replaced ↔ 2 ≤ (sources.filter (·.contains n)).length) ∧
      report.sources = sources.length ∧ report.units = r.size ∧
      ∀ s ∈ sources, ∀ u ∈ s.units, u.close.same u = true) ∧
    ∀ word, (∀ p : Priority, word ≠ p.word) →
      (mergeAll sources word).run host = (.error (.priority word), host) := by
  refine ⟨?_, ?_⟩
  · intro p
    have hreplaced := replaced_merge sources p
    refine ⟨_, _, _, run_mergeAll sources p host, rfl, names_merge sources p, ?_, hreplaced, ?_, ?_,
      rfl, rfl, fun _ _ u _ => Component.close_same u⟩
    · intro n
      rw [get?_merge, preferred_eq_winner p sources h]
    · rw [hreplaced]
      exact metAfter_nodup 1 _
    · intro n
      rw [hreplaced, mem_metAfter, count_names sources h]
      exact Nat.lt_iff_add_one_le
  · intro word hword
    rw [mergeAll, ofString?_eq_none word hword]
    rfl

/-- Three sources in which names come back in another order. -/
def interleaved : List Registry :=
  let unit := fun name file => (⟨name, .node "" true [] [file], ⟨[], true⟩⟩ : Component)
  [⟨[unit "a" "1", unit "b" "1"], true⟩, ⟨[unit "b" "2", unit "c" "2"], true⟩,
    ⟨[unit "c" "3", unit "a" "3", unit "b" "3"], true⟩]

theorem mergeAll_spec_interleaved : (∀ r ∈ interleaved, r.names.Nodup) ∧
    ∃ r report host, (mergeAll interleaved "last_wins").run { disk := { workdir := [] } } =
      (.ok (r, report), host) ∧ r.names = ["a", "b", "c"] ∧ report.replaced = ["b", "c", "a"] := by
  have hnodup : ∀ r ∈ interleaved, r.names.Nodup := by decide
  obtain ⟨r, report, host, hrun, -, hnames, -, hreplaced, -⟩ :=
    (mergeAll_spec interleaved hnodup { disk := { workdir := [] } }).1 .lastWins
  refine ⟨hnodup, r, report, host, hrun, ?_, ?_⟩
  · rw [hnames]
    decide
  · rw [hreplaced]
    decide

theorem metAfter_append_right (as bs : List String) :
    metAfter 0 (as ++ metAfter 0 bs) = metAfter 0 (as ++ bs) := by
  induction bs using List.reverseRecOn with
  | nil => rfl
  | append_singleton bs n ih =>
    have hsplit : as ++ (bs ++ [n]) = (as ++ bs) ++ [n] := (List.append_assoc ..).symm
    rw [hsplit, metAfter_append, metAfter_append 0 (as ++ bs), ← ih]
    -- a name that `bs` had already is dropped on both sides
    by_cases hn : bs.count n = 0
    · rw [if_pos hn, ← List.append_assoc, metAfter_append, ih]
      have hcount : (as ++ metAfter 0 bs).count n = (as ++ bs).count n := by
        have hnone : n ∉ metAfter 0 bs := by
          rw [mem_metAfter]
          omega
        rw [List.count_append, List.count_append, hn, List.count_eq_zero.mpr hnone]
      rw [hcount]
    · have hmany : (as ++ bs).count n ≠ 0 := by
        rw [List.count_append]
        omega
      rw [if_neg hn, if_neg hmany, List.append_nil, List.append_nil]

theorem metAfter_append_left (as bs : List String) :
    metAfter 0 (metAfter 0 as ++ bs) = metAfter 0 (as ++ bs) := by
  induction bs using List.reverseRecOn with
  | nil =>
    rw [List.append_nil, List.append_nil]
    exact metAfter_of_nodup _ (metAfter_nodup 0 as)
  | append_singleton bs n ih =>
    have hcount : (metAfter 0 as ++ bs).count n = 0 ↔ (as ++ bs).count n = 0 := by
      rw [List.count_eq_zero, List.count_eq_zero, List.mem_append, List.mem_append, mem_metAfter,
        List.count_pos_iff]
    rw [← List.append_assoc, ← List.append_assoc, metAfter_append, metAfter_append, ih]
    simp only [hcount]

theorem metAfter_flatMap {α : Type} (as : List α) (f : α → List String) :
    metAfter 0 (as.flatMap fun a => metAfter 0 (f a)) = metAfter 0 (as.flatMap f) := by
  induction as with
  | nil => rfl
  | cons a as ih =>
    rw [List.flatMap_cons, List.flatMap_cons, metAfter_append_left, ← metAfter_append_right, ih,
      metAfter_append_right]

theorem names_merge_nodup (sources : List Registry) (priority : Priority) :
    (merge sources priority).registry.names.Nodup := by
  rw [names_merge]
  exact metAfter_nodup 0 _

/-- A frozen registry without repetitions is told by its names and by the unit of each name. -/
theorem frozen_ext (r s : Registry) (hr : r.frozen = true) (hs : s.frozen = true)
    (h : r.names.Nodup) (hnames : r.names = s.names) (hget : ∀ n, r.get? n = s.get? n) : r = s := by
  obtain ⟨us, _⟩ := r
  obtain ⟨vs, _⟩ := s
  cases hr
  cases hs
  rw [Component.ext_of_names us vs h hnames hget]

theorem merge_staged (groups : List (List Registry)) (priority : Priority) :
    (merge (groups.map fun g => (merge g priority).registry) priority).registry =
      (merge groups.flatten priority).registry := by
  refine frozen_ext _ _ rfl rfl (names_merge_nodup _ _) ?_ ?_
  · rw [names_merge, names_merge, List.flatMap_map, ← List.flatMap_id, List.flatMap_assoc]
    simp only [names_merge]
    exact metAfter_flatMap groups _
  · intro n
    rw [get?_merge, get?_merge, List.flatMap_map, ← List.flatMap_id, List.flatMap_assoc,
      preferred_flatMap, preferred_flatMap, List.map_findSome?, List.map_findSome?]
    -- in every group the merge holds what the group itself prefers
    refine findSome?_congr _ _ _ fun g _ => ?_
    simp only [Function.comp_apply, id_eq]
    rw [preferred_of_nodup _ _ (names_merge_nodup g priority), get?_merge, Option.map_map]
    refine congrArg (Option.map · _) (funext fun u => ?_)
    exact Component.close_close u

theorem metAfter_of_subset (as bs : List String) (h : ∀ n ∈ bs, n ∈ as) :
    metAfter 0 (as ++ bs) = metAfter 0 as := by
  induction bs using List.reverseRecOn with
  | nil => rw [List.append_nil]
  | append_singleton bs n ih =>
    have hmem : n ∈ as := h n (by simp)
    have hcount : (as ++ bs).count n ≠ 0 :=
      mt List.count_eq_zero.mp (not_not.mpr (List.mem_append_left bs hmem))
    have hrest := ih fun m hm => h m (List.mem_append_left [n] hm)
    rw [← List.append_assoc, metAfter_append, if_neg hcount, List.append_nil, hrest]

/-- More of a registry adds nothing to it. -/
theorem merge_replicate (count : Nat) (r : Registry) (priority : Priority) (h : r.names.Nodup) :
    (merge (List.replicate (count + 1) r) priority).registry =
      ⟨r.units.map Component.close, true⟩ := by
  refine frozen_ext _ _ rfl rfl (names_merge_nodup _ _) ?_ ?_
  · have hrest : ∀ n ∈ (List.replicate count r).flatMap Registry.names, n ∈ r.names := by
      intro n hn
      obtain ⟨a, ha, hna⟩ := List.mem_flatMap.mp hn
      rw [List.eq_of_mem_replicate ha] at hna
      exact hna
    rw [names_merge, List.replicate_succ, List.flatMap_cons, metAfter_of_subset _ _ hrest,
      metAfter_of_nodup _ h]
    exact (Component.map_name_close r.units).symm
  · intro n
    have horder : order priority (List.replicate (count + 1) r) = List.replicate (count + 1) r := by
      cases priority with
      | lastWins => exact List.reverse_replicate ..
      | firstWins => rfl
    have hall : ∀ a ∈ List.replicate (count + 1) r, a.names.Nodup := by
      intro a ha
      rw [List.eq_of_mem_replicate ha]
      exact h
    rw [get?_merge, preferred_eq_winner priority _ hall, winner, horder, List.findSome?_replicate,
      if_neg (Nat.succ_ne_zero count)]
    exact (Component.find?_map_close r.units n).symm

theorem findSome?_feedback {α β : Type} (as : List α) (f g : α → Option β)
    (h : ∀ a ∈ as, g a = f a ∨ g a = as.findSome? f) : as.findSome? g = as.findSome? f := by
  induction as with
  | nil => rfl
  | cons a as ih =>
    rw [List.forall_mem_cons] at h
    rw [List.findSome?_cons] at h ⊢
    rw [List.findSome?_cons]
    cases hf : f a with
    | some b =>
      -- the first hit is here already, whatever stands here now
      have hg : g a = some b := by
        rcases h.1 with hsame | hfed
        · rw [hsame, hf]
        · rw [hfed, hf]
      rw [hg]
    | none =>
      rw [hf] at h
      have hrest := ih h.2
      rcases h.1 with hsame | hfed
      · rw [hsame, hrest]
      · rw [hfed, hrest]
        cases as.findSome? f <;> rfl

theorem mem_metAfter_zero (names : List String) (n : String) : n ∈ metAfter 0 names ↔ n ∈ names := by
  rw [mem_metAfter, List.count_pos_iff]

/-- What came before can come once more. -/
theorem metAfter_repeated (before names : List String) :
    metAfter 0 (before ++ (before ++ names)) = metAfter 0 (before ++ names) := by
  have htwice : metAfter 0 (before ++ before) = metAfter 0 before :=
    metAfter_of_subset before before fun _ hn => hn
  rw [← List.append_assoc, ← metAfter_append_left, htwice, metAfter_append_left]

theorem metAfter_feedback {α : Type} (as : List α) (f g : α → List String) (before : List String)
    (h : ∀ a ∈ as, g a = f a ∨ g a = metAfter 0 (before ++ as.flatMap f)) :
    metAfter 0 (before ++ as.flatMap g) = metAfter 0 (before ++ as.flatMap f) := by
  induction as generalizing before with
  | nil => rfl
  | cons a as ih =>
    have hall := h
    rw [List.forall_mem_cons] at h
    rw [List.flatMap_cons] at h ⊢
    rw [List.flatMap_cons]
    rcases h.1 with hsame | hfed
    · rw [hsame, ← List.append_assoc, ← List.append_assoc]
      apply ih
      rw [List.append_assoc]
      exact h.2
    · -- all names are met by now, in their order
      have hknown : ∀ n ∈ as.flatMap g, n ∈ before ++ g a := by
        intro n hn
        obtain ⟨b, hb, hn⟩ := List.mem_flatMap.mp hn
        apply List.mem_append_right
        rw [hfed, mem_metAfter_zero]
        rcases h.2 b hb with hsame | hfed'
        · rw [hsame] at hn
          exact List.mem_append_right _ (List.mem_append_right _ (List.mem_flatMap.mpr ⟨b, hb, hn⟩))
        · rw [hfed', mem_metAfter_zero] at hn
          exact hn
      rw [← List.append_assoc, metAfter_of_subset _ _ hknown, hfed, metAfter_append_right,
        metAfter_repeated]

section
variable {α : Type} (load : α → Option Registry)

/-- The units of a source, none if it cannot be loaded. -/
def unitsOf (a : α) : List Component :=
  ((load a).map (·.units)).getD []

theorem flatMap_loaded (as : List α) :
    (as.filterMap load).flatMap (·.units) = as.flatMap (unitsOf load) := by
  induction as with
  | nil => rfl
  | cons a as ih =>
    rw [List.filterMap_cons, List.flatMap_cons, unitsOf]
    cases load a with
    | none => exact ih
    | some r =>
      rw [List.flatMap_cons, ih]
      rfl

variable (as : List α) (priority : Priority)

theorem names_loaded : (merge (as.filterMap load) priority).registry.names =
    metAfter 0 (as.flatMap fun a => (unitsOf load a).map (·.name)) := by
  rw [names_merge, ← names_flatMap, flatMap_loaded, List.map_flatMap]

theorem get?_loaded (n : String) : (merge (as.filterMap load) priority).registry.get? n =
    (order priority as).findSome? fun a =>
      (preferred priority (unitsOf load a) n).map Component.close := by
  rw [get?_merge, flatMap_loaded, preferred_flatMap, List.map_findSome?]
  rfl

variable (load' : α → Option Registry)
  (h : ∀ a ∈ as, load' a = load a ∨ load' a = some (merge (as.filterMap load) priority).registry)
include h

/-- The merge of some sources can stand in for any of them. -/
theorem merge_feedback : (merge (as.filterMap load') priority).registry =
    (merge (as.filterMap load) priority).registry := by
  refine frozen_ext _ _ rfl rfl (names_merge_nodup _ _) ?_ ?_
  · rw [names_loaded, names_loaded]
    apply metAfter_feedback as _ _ []
    intro a ha
    rcases h a ha with hsame | hfed
    · left
      rw [unitsOf, hsame, ← unitsOf]
    · right
      rw [unitsOf, hfed, List.nil_append, ← names_loaded load as priority]
      rfl
  · intro n
    rw [get?_loaded, get?_loaded]
    apply findSome?_feedback
    intro a ha
    rcases h a ((mem_order priority as a).mp ha) with hsame | hfed
    · left
      rw [unitsOf, hsame, ← unitsOf]
    · right
      have hunits : unitsOf load' a = (merge (as.filterMap load) priority).registry.units := by
        rw [unitsOf, hfed]
        rfl
      rw [hunits, preferred_of_nodup _ _ (names_merge_nodup _ _), get?_merge, Option.map_map,
        ← get?_loaded, get?_merge]
      refine congrArg (Option.map · _) (funext fun u => ?_)
      exact Component.close_close u

end

end DocNavigation.Merge
