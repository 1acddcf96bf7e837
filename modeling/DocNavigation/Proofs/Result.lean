import Mathlib.Data.List.Forall2

/-!
Results that can be errors: when a composed result is a value.
-/

namespace DocNavigation.Result

section
variable {ε δ α β : Type}

theorem mapError_eq_ok_iff (f : ε → δ) (x : Except ε α) (a : α) : x.mapError f = .ok a ↔ x = .ok a := by
  cases x <;> simp [Except.mapError]

theorem map_eq_ok_iff (f : α → β) (x : Except ε α) (b : β) :
    x.map f = .ok b ↔ ∃ a, x = .ok a ∧ f a = b := by
  cases x <;> simp [Except.map]

theorem bind_eq_ok_iff (x : Except ε α) (f : α → Except ε β) (b : β) :
    (x >>= f) = .ok b ↔ ∃ a, x = .ok a ∧ f a = .ok b := by
  cases x <;> simp [bind, Except.bind]

theorem mapM_eq_ok_iff (f : α → Except ε β) (as : List α) (bs : List β) :
    as.mapM f = .ok bs ↔ List.Forall₂ (fun a b => f a = .ok b) as bs := by
  induction as generalizing bs with
  | nil => cases bs <;> simp [pure, Except.pure]
  | cons a as ih =>
    rw [List.mapM_cons, bind_eq_ok_iff]
    constructor
    · rintro ⟨b, hb, h⟩
      obtain ⟨bs', hbs, h⟩ := (bind_eq_ok_iff _ _ _).mp h
      cases h
      exact .cons hb ((ih bs').mp hbs)
    · rintro (_ | ⟨hb, hbs⟩)
      rename_i b bs'
      exact ⟨b, hb, (bind_eq_ok_iff _ _ _).mpr ⟨bs', (ih bs').mpr hbs, rfl⟩⟩

/-- What every step keeps, a fold keeps. -/
theorem foldlM_keeps (f : β → α → Except ε β) (P : β → Prop) (as : List α)
    (hstep : ∀ b, ∀ a ∈ as, ∀ c, P b → f b a = .ok c → P c) (b c : β) (hb : P b)
    (hc : as.foldlM f b = .ok c) : P c := by
  induction as generalizing b with
  | nil =>
    cases hc
    exact hb
  | cons a as ih =>
    rw [List.foldlM_cons, bind_eq_ok_iff] at hc
    obtain ⟨d, hd, hc⟩ := hc
    apply ih (fun b a ha => hstep b a (List.mem_cons_of_mem _ ha)) d _ hc
    exact hstep b a (List.mem_cons_self ..) d hb hd

/-- Of several errors the first one counts. -/
theorem exists_error_of_mapM (f : α → Except ε β) (as : List α) (e : ε) (h : as.mapM f = .error e) :
    ∃ a ∈ as, f a = .error e := by
  induction as with
  | nil => cases h
  | cons a as ih =>
    rw [List.mapM_cons] at h
    cases ha : f a with
    | error e' =>
      rw [ha] at h
      cases h
      exact ⟨a, List.mem_cons_self .., ha⟩
    | ok b =>
      cases hrest : as.mapM f with
      | error e' =>
        rw [ha, hrest] at h
        cases h
        obtain ⟨a', hmem, ha'⟩ := ih hrest
        exact ⟨a', List.mem_cons_of_mem _ hmem, ha'⟩
      | ok bs =>
        rw [ha, hrest] at h
        cases h

theorem exists_left_of_mem {R : α → β → Prop} {as : List α} {bs : List β}
    (h : List.Forall₂ R as bs) (b : β) (hb : b ∈ bs) : ∃ a ∈ as, R a b := by
  induction h with
  | nil => cases hb
  | cons hab _ ih =>
    rcases List.mem_cons.mp hb with rfl | hb
    · exact ⟨_, List.mem_cons_self .., hab⟩
    · obtain ⟨a, ha, hab⟩ := ih hb
      exact ⟨a, List.mem_cons_of_mem _ ha, hab⟩

theorem exists_right_of_mem {R : α → β → Prop} {as : List α} {bs : List β}
    (h : List.Forall₂ R as bs) (a : α) (ha : a ∈ as) : ∃ b ∈ bs, R a b :=
  exists_left_of_mem h.flip a ha

theorem exists_forall₂ {R : α → β → Prop} {as : List α} (h : ∀ a ∈ as, ∃ b, R a b) :
    ∃ bs, List.Forall₂ R as bs := by
  induction as with
  | nil => exact ⟨[], .nil⟩
  | cons a as ih =>
    obtain ⟨⟨b, hb⟩, hrest⟩ := List.forall_mem_cons.mp h
    obtain ⟨bs, hbs⟩ := ih hrest
    exact ⟨b :: bs, .cons hb hbs⟩

theorem exists_left_of_getElem? {R : α → β → Prop} {as : List α} {bs : List β}
    (h : List.Forall₂ R as bs) (i : Nat) (b : β) (hb : bs[i]? = some b) :
    ∃ a, as[i]? = some a ∧ R a b := by
  induction h generalizing i with
  | nil => cases hb
  | cons hab _ ih =>
    cases i with
    | zero =>
      cases hb
      exact ⟨_, rfl, hab⟩
    | succ i => exact ih i hb

/-- What belongs to different things is different. -/
theorem nodup_of_forall₂ {R : α → β → Prop} {as : List α} {bs : List β}
    (h : List.Forall₂ R as bs) (hR : ∀ a b c, R a b → R a c → b = c) (hbs : bs.Nodup) :
    as.Nodup := by
  induction h with
  | nil => exact List.nodup_nil
  | @cons a b as bs hab hrest ih =>
    rw [List.nodup_cons] at hbs ⊢
    refine ⟨fun ha => ?_, ih hbs.2⟩
    obtain ⟨c, hc, hac⟩ := exists_right_of_mem hrest a ha
    exact hbs.1 (hR a b c hab hac ▸ hc)

end

end DocNavigation.Result
