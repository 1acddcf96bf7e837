import Mathlib.Data.List.Nodup

/-!
Lists of named things without repeated names: looking one up by its name, and telling one after the
other that they are new.
-/

namespace DocNavigation.Named

theorem find?_eq_some_iff {α ν : Type} [DecidableEq ν] (name : α → ν) (as : List α)
    (h : (as.map name).Nodup) (n : ν) (a : α) :
    as.find? (name · = n) = some a ↔ a ∈ as ∧ name a = n := by
  constructor
  · intro hfind
    have hname := List.find?_some hfind
    exact ⟨List.mem_of_find?_eq_some hfind, of_decide_eq_true hname⟩
  · rintro ⟨ha, rfl⟩
    obtain ⟨b, hb⟩ : ∃ b, as.find? (name · = name a) = some b :=
      Option.isSome_iff_exists.mp (List.find?_isSome.mpr ⟨a, ha, by simp⟩)
    have hname : name b = name a := by simpa using List.find?_some hb
    have hsame := List.inj_on_of_nodup_map h (List.mem_of_find?_eq_some hb) ha hname
    rw [hb, hsame]

/-- Names are new and not repeated if the first one is new and the others are new beside it. -/
theorem new_cons_iff {α ν : Type} (name : α → ν) (a : α) (as : List α) (taken taken' : List ν)
    (h : ∀ n, n ∈ taken' ↔ n ∈ taken ∨ n = name a) :
    (((a :: as).map name).Nodup ∧ ∀ b ∈ a :: as, name b ∉ taken) ↔
      name a ∉ taken ∧ (as.map name).Nodup ∧ ∀ b ∈ as, name b ∉ taken' := by
  rw [List.map_cons, List.nodup_cons, List.forall_mem_cons, List.mem_map]
  simp only [h, not_or]
  constructor
  · rintro ⟨⟨hfirst, hnodup⟩, hnew, hall⟩
    exact ⟨hnew, hnodup, fun b hb => ⟨hall b hb, fun hsame => hfirst ⟨b, hb, hsame⟩⟩⟩
  · rintro ⟨hnew, hnodup, hall⟩
    refine ⟨⟨?_, hnodup⟩, hnew, fun b hb => (hall b hb).1⟩
    rintro ⟨b, hb, hsame⟩
    exact (hall b hb).2 hsame

end DocNavigation.Named
