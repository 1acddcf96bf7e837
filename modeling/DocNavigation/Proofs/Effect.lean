import Mathlib.Data.List.Basic

/-!
Runs of operations that change a state and can fail. What was changed before a failure stays.
-/

namespace DocNavigation.Effect

section
variable {ε σ α β : Type}

theorem run_bind (x : ExceptT ε (StateM σ) α) (f : α → ExceptT ε (StateM σ) β) (s : σ) :
    (x >>= f).run s = match x.run s with
      | (.ok a, t) => (f a).run t
      | (.error e, t) => (.error e, t) := by
  change (match x.run s with
    | (r, t) => (ExceptT.bindCont f r).run t) = _
  obtain ⟨r, t⟩ := x.run s
  cases r <;> rfl

theorem run_pure (a : α) (s : σ) : (pure a : ExceptT ε (StateM σ) α).run s = (.ok a, s) := rfl

theorem run_throw (e : ε) (s : σ) : (throw e : ExceptT ε (StateM σ) α).run s = (.error e, s) := rfl

theorem run_get (s : σ) : (get : ExceptT ε (StateM σ) σ).run s = (.ok s, s) := rfl

theorem run_tryCatch (x : ExceptT ε (StateM σ) α) (f : ε → ExceptT ε (StateM σ) α) (s : σ) :
    (tryCatch x f).run s = match x.run s with
      | (.ok a, t) => (.ok a, t)
      | (.error e, t) => (f e).run t := by
  change (match x.run s with
    | (r, t) => ExceptT.run (m := StateM σ) (match r with
      | .ok a => ExceptT.mk (pure (.ok a))
      | .error e => f e) t) = _
  obtain ⟨r, t⟩ := x.run s
  cases r <;> rfl

theorem run_observing (x : ExceptT ε (StateM σ) α) (s : σ) :
    (observing x).run s = (.ok (x.run s).1, (x.run s).2) := by
  rw [observing, run_tryCatch, run_bind]
  obtain ⟨r, t⟩ := x.run s
  cases r <;> rfl

theorem exists_state_iff (x : Except ε α) (s : σ) (a : α) :
    (∃ t, (x, s) = (.ok a, t)) ↔ x = .ok a := by
  constructor
  · rintro ⟨t, h⟩
    exact congrArg Prod.fst h
  · intro h
    exact ⟨s, Prod.ext h rfl⟩

theorem exists_state_of_fst (x : Except ε α × σ) (r : Except ε α) (h : x.1 = r) :
    ∃ t, x = (r, t) :=
  ⟨x.2, Prod.ext h rfl⟩

theorem bind_eq_ok_iff (x : ExceptT ε (StateM σ) α) (f : α → ExceptT ε (StateM σ) β) (s u : σ)
    (b : β) : (x >>= f).run s = (.ok b, u) ↔
      ∃ a t, x.run s = (.ok a, t) ∧ (f a).run t = (.ok b, u) := by
  rw [run_bind]
  obtain ⟨r, t⟩ := x.run s
  cases r with
  | error e =>
    refine ⟨nofun, ?_⟩
    intro ⟨a, t, hx, _⟩
    cases hx
  | ok a =>
    refine ⟨fun hf => ⟨a, t, rfl, hf⟩, ?_⟩
    intro ⟨a, t, hx, hf⟩
    cases hx
    exact hf

theorem bind_eq_error_iff (x : ExceptT ε (StateM σ) α) (f : α → ExceptT ε (StateM σ) β) (s u : σ)
    (e : ε) : (x >>= f).run s = (.error e, u) ↔
      x.run s = (.error e, u) ∨ ∃ a t, x.run s = (.ok a, t) ∧ (f a).run t = (.error e, u) := by
  rw [run_bind]
  obtain ⟨r, t⟩ := x.run s
  cases r with
  | error e' =>
    constructor
    · intro h
      cases h
      exact .inl rfl
    · rintro (h | ⟨a, t, hx, -⟩)
      · cases h
        rfl
      · cases hx
  | ok a =>
    refine ⟨fun h => .inr ⟨a, t, rfl, h⟩, ?_⟩
    rintro (hx | ⟨a, t, hx, h⟩)
    · cases hx
    · cases hx
      exact h

/-- What each single result has in common with its argument. -/
theorem mapM_ok (f : α → ExceptT ε (StateM σ) β) (R : α → β → Prop) (as : List α)
    (hstep : ∀ a ∈ as, ∀ s b t, (f a).run s = (.ok b, t) → R a b) (bs : List β) (s t : σ)
    (h : (as.mapM f).run s = (.ok bs, t)) : List.Forall₂ R as bs := by
  induction as generalizing s bs with
  | nil =>
    cases h
    exact .nil
  | cons a as ih =>
    rw [List.forall_mem_cons] at hstep
    rw [List.mapM_cons, bind_eq_ok_iff] at h
    obtain ⟨b, u, hb, h⟩ := h
    rw [bind_eq_ok_iff] at h
    obtain ⟨bs', v, hbs, h⟩ := h
    cases h
    exact .cons (hstep.1 s b u hb) (ih hstep.2 bs' u hbs)

/-- What every step keeps, a fold keeps. -/
theorem foldlM_keeps (f : β → α → ExceptT ε (StateM σ) β) (P : β → Prop) (as : List α)
    (hstep : ∀ b, ∀ a ∈ as, ∀ s c t, P b → (f b a).run s = (.ok c, t) → P c) (b c : β)
    (s t : σ) (hb : P b) (hc : (as.foldlM f b).run s = (.ok c, t)) : P c := by
  induction as generalizing b s with
  | nil =>
    cases hc
    exact hb
  | cons a as ih =>
    rw [List.foldlM_cons, bind_eq_ok_iff] at hc
    obtain ⟨d, u, hd, hc⟩ := hc
    apply ih (fun b a ha => hstep b a (List.mem_cons_of_mem _ ha)) d u _ hc
    exact hstep b a (List.mem_cons_self ..) s d u hb hd

end

section
variable {ε σ α β : Type} {I : σ → Prop}

/-- What holds of the state holds after the operation, whether that goes well or not. -/
def Preserves (I : σ → Prop) (x : ExceptT ε (StateM σ) α) : Prop :=
  ∀ s, I s → I (x.run s).2

theorem preserves_pure (a : α) : Preserves I (pure a : ExceptT ε (StateM σ) α) :=
  fun _ h => h

theorem preserves_throw (e : ε) : Preserves I (throw e : ExceptT ε (StateM σ) α) :=
  fun _ h => h

theorem preserves_get : Preserves I (get : ExceptT ε (StateM σ) σ) :=
  fun _ h => h

theorem preserves_modify (f : σ → σ) (hf : ∀ s, I s → I (f s)) :
    Preserves I (modify f : ExceptT ε (StateM σ) PUnit) :=
  hf

theorem Preserves.bind {x : ExceptT ε (StateM σ) α} {f : α → ExceptT ε (StateM σ) β}
    (hx : Preserves I x) (hf : ∀ a, Preserves I (f a)) : Preserves I (x >>= f) := by
  intro s hI
  have hfirst := hx s hI
  rw [run_bind]
  generalize x.run s = o at hfirst ⊢
  obtain ⟨r, t⟩ := o
  cases r with
  | ok a => exact hf a t hfirst
  | error e => exact hfirst

theorem Preserves.tryCatch {x : ExceptT ε (StateM σ) α} {f : ε → ExceptT ε (StateM σ) α}
    (hx : Preserves I x) (hf : ∀ e, Preserves I (f e)) : Preserves I (tryCatch x f) := by
  intro s hI
  have hfirst := hx s hI
  rw [run_tryCatch]
  generalize x.run s = o at hfirst ⊢
  obtain ⟨r, t⟩ := o
  cases r with
  | ok a => exact hfirst
  | error e => exact hf e t hfirst

theorem Preserves.mapM {f : α → ExceptT ε (StateM σ) β} {as : List α}
    (hf : ∀ a ∈ as, Preserves I (f a)) : Preserves I (as.mapM f) := by
  induction as with
  | nil => exact preserves_pure []
  | cons a as ih =>
    rw [List.forall_mem_cons] at hf
    rw [List.mapM_cons]
    exact hf.1.bind fun b => (ih hf.2).bind fun bs => preserves_pure (b :: bs)

/-- An operation that is done under a condition. -/
theorem Preserves.bind_if {c : Prop} [Decidable c] {x : ExceptT ε (StateM σ) Unit}
    {f : Unit → ExceptT ε (StateM σ) β} (hx : Preserves I x) (hf : ∀ a, Preserves I (f a)) :
    Preserves I (if c then x >>= f else f ()) := by
  split
  · exact hx.bind hf
  · exact hf ()

/-- What is done after a look at the state can depend on what holds of it. -/
theorem preserves_get_bind (f : σ → ExceptT ε (StateM σ) α)
    (hf : ∀ s, I s → I ((f s).run s).2) : Preserves I (get >>= f) := by
  intro s hI
  rw [run_bind, run_get]
  exact hf s hI

theorem Preserves.forIn (f : α → β → ExceptT ε (StateM σ) (ForInStep β)) (as : List α)
    (hf : ∀ a ∈ as, ∀ b, Preserves I (f a b)) (b : β) : Preserves I (forIn as b f) := by
  induction as generalizing b with
  | nil => exact preserves_pure b
  | cons a as ih =>
    rw [List.forall_mem_cons] at hf
    rw [List.forIn_cons]
    refine (hf.1 b).bind fun step => ?_
    cases step with
    | done b => exact preserves_pure b
    | yield b => exact ih hf.2 b

end

section
variable {ε σ α β α' β' : Type} {R : σ → σ → Prop} {V : α → β → Prop} {W : α' → β' → Prop}

/-- The same fault, or values in a relation, and states in a relation. -/
inductive Alike (R : σ → σ → Prop) (V : α → β → Prop) : Except ε α × σ → Except ε β × σ → Prop
  | ok (a : α) (b : β) (s t : σ) (hV : V a b) (hR : R s t) : Alike R V (.ok a, s) (.ok b, t)
  | error (e : ε) (s t : σ) (hR : R s t) : Alike R V (.error e, s) (.error e, t)

/-- From states in a relation the two come to the same fault, or to values in a relation, and to
states in the relation again. -/
def Twins (R : σ → σ → Prop) (V : α → β → Prop) (x : ExceptT ε (StateM σ) α)
    (y : ExceptT ε (StateM σ) β) : Prop :=
  ∀ s t, R s t → Alike R V (x.run s) (y.run t)

theorem Alike.state (o : Except ε α × σ) (o' : Except ε β × σ) (h : Alike R V o o') :
    R o.2 o'.2 := by
  cases h with
  | ok a b s t _ hR => exact hR
  | error e s t hR => exact hR

theorem Alike.result (o o' : Except ε α × σ) (h : Alike R Eq o o') : o.1 = o'.1 := by
  cases h with
  | ok a b s t hV _ => exact congrArg Except.ok hV
  | error e s t _ => rfl

theorem alike_same (r : Except ε α) (s t : σ) (hR : R s t) : Alike R Eq (r, s) (r, t) := by
  cases r with
  | ok a => exact .ok a a s t rfl hR
  | error e => exact .error e s t hR

theorem twins_pure (a : α) (b : β) (h : V a b) :
    Twins R V (pure a : ExceptT ε (StateM σ) α) (pure b) :=
  fun s t hR => .ok a b s t h hR

theorem twins_throw (e : ε) :
    Twins R V (throw e : ExceptT ε (StateM σ) α) (throw e : ExceptT ε (StateM σ) β) :=
  fun s t hR => .error e s t hR

theorem twins_get : Twins R R (get : ExceptT ε (StateM σ) σ) get :=
  fun s t hR => .ok s t s t hR hR

theorem twins_set (s t : σ) (h : R s t) :
    Twins R Eq (set s : ExceptT ε (StateM σ) PUnit) (set t) :=
  fun _ _ _ => .ok _ _ s t rfl h

/-- What is known of the values stays known. -/
theorem Alike.and {o o' : Except ε α × σ} (h : Alike R Eq o o')
    (P : α → Prop) (hP : ∀ a, o.1 = .ok a → P a) : Alike R (fun a b => a = b ∧ P a) o o' := by
  cases h with
  | ok a b s t hV hR => exact .ok a b s t ⟨hV, hP a rfl⟩ hR
  | error e s t hR => exact .error e s t hR

theorem Alike.bind {x : ExceptT ε (StateM σ) α} {y : ExceptT ε (StateM σ) β}
    {f : α → ExceptT ε (StateM σ) α'} {g : β → ExceptT ε (StateM σ) β'} {s t : σ}
    (h : Alike R V (x.run s) (y.run t)) (hf : ∀ a b, V a b → Twins R W (f a) (g b)) :
    Alike R W ((x >>= f).run s) ((y >>= g).run t) := by
  rw [run_bind, run_bind]
  generalize x.run s = o at h ⊢
  generalize y.run t = o' at h ⊢
  cases h with
  | ok a b s t hV hR => exact hf a b hV s t hR
  | error e s t hR => exact .error e s t hR

theorem Twins.bind {x : ExceptT ε (StateM σ) α} {y : ExceptT ε (StateM σ) β}
    {f : α → ExceptT ε (StateM σ) α'} {g : β → ExceptT ε (StateM σ) β'} (h : Twins R V x y)
    (hf : ∀ a b, V a b → Twins R W (f a) (g b)) : Twins R W (x >>= f) (y >>= g) :=
  fun s t hR => (h s t hR).bind hf

/-- The first parts come to the same value. -/
theorem Twins.bind_same {x y : ExceptT ε (StateM σ) α} {f : α → ExceptT ε (StateM σ) α'}
    {g : α → ExceptT ε (StateM σ) β'} (h : Twins R Eq x y) (hf : ∀ a, Twins R W (f a) (g a)) :
    Twins R W (x >>= f) (y >>= g) := by
  apply h.bind
  intro a b hab
  rw [hab]
  exact hf b

/-- An operation that is done under a condition. -/
theorem Twins.bind_if {c : Prop} [Decidable c] {x y : ExceptT ε (StateM σ) Unit}
    {f : Unit → ExceptT ε (StateM σ) α'} {g : Unit → ExceptT ε (StateM σ) β'}
    (h : Twins R Eq x y) (hf : ∀ a, Twins R W (f a) (g a)) :
    Twins R W (if c then x >>= f else f ()) (if c then y >>= g else g ()) := by
  split
  · exact h.bind_same hf
  · exact hf ()

theorem Alike.tryCatch {x : ExceptT ε (StateM σ) α} {y : ExceptT ε (StateM σ) β}
    {f : ε → ExceptT ε (StateM σ) α} {g : ε → ExceptT ε (StateM σ) β} {s t : σ}
    (h : Alike R V (x.run s) (y.run t)) (hf : ∀ e, Twins R V (f e) (g e)) :
    Alike R V ((tryCatch x f).run s) ((tryCatch y g).run t) := by
  rw [run_tryCatch, run_tryCatch]
  generalize x.run s = o at h ⊢
  generalize y.run t = o' at h ⊢
  cases h with
  | ok a b s t hV hR => exact .ok a b s t hV hR
  | error e s t hR => exact hf e s t hR

theorem Twins.tryCatch {x : ExceptT ε (StateM σ) α} {y : ExceptT ε (StateM σ) β}
    {f : ε → ExceptT ε (StateM σ) α} {g : ε → ExceptT ε (StateM σ) β} (h : Twins R V x y)
    (hf : ∀ e, Twins R V (f e) (g e)) : Twins R V (tryCatch x f) (tryCatch y g) :=
  fun s t hR => (h s t hR).tryCatch hf

theorem Twins.mapM (f g : α → ExceptT ε (StateM σ) β) (as : List α)
    (h : ∀ a ∈ as, Twins R Eq (f a) (g a)) : Twins R Eq (as.mapM f) (as.mapM g) := by
  induction as with
  | nil => exact twins_pure [] [] rfl
  | cons a as ih =>
    rw [List.forall_mem_cons] at h
    rw [List.mapM_cons, List.mapM_cons]
    refine Twins.bind_same h.1 fun b => ?_
    exact Twins.bind_same (ih h.2) fun bs => twins_pure _ _ rfl

theorem Twins.forM (f g : α → ExceptT ε (StateM σ) PUnit) (as : List α)
    (h : ∀ a ∈ as, Twins R Eq (f a) (g a)) : Twins R Eq (as.forM f) (as.forM g) := by
  induction as with
  | nil => exact twins_pure _ _ rfl
  | cons a as ih =>
    rw [List.forall_mem_cons] at h
    exact Twins.bind_same (f := fun _ => as.forM f) (g := fun _ => as.forM g) h.1 fun _ => ih h.2

theorem Twins.foldlM (f g : β → α → ExceptT ε (StateM σ) β) (as : List α)
    (h : ∀ b, ∀ a ∈ as, Twins R Eq (f b a) (g b a)) (b : β) :
    Twins R Eq (as.foldlM f b) (as.foldlM g b) := by
  induction as generalizing b with
  | nil => exact twins_pure b b rfl
  | cons a as ih =>
    rw [List.foldlM_cons, List.foldlM_cons]
    refine Twins.bind_same (h b a (List.mem_cons_self ..)) fun c => ?_
    exact ih (fun b a ha => h b a (List.mem_cons_of_mem _ ha)) c

end

end DocNavigation.Effect
