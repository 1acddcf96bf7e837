import DocNavigation.Host
import DocNavigation.Proofs.Effect
import DocNavigation.Proofs.Result

/-!
Runs of operations on a machine: what the single steps do to it.
-/

namespace DocNavigation.Act

section
variable {α : Type}

theorem run_lift (r : Except Fault α) (h : Host) : (lift r).run h = (r, h) := by
  cases r <;> rfl

theorem run_disk (h : Host) : disk.run h = (.ok h.disk, h) := rfl

theorem run_look (f : Disk → Except Fault α) (h : Host) : (look f).run h = (f h.disk, h) := by
  rw [look, Effect.run_bind]
  exact run_lift _ h

theorem run_note (n : Note) (h : Host) :
    (note n).run h = (.ok (), { h with journal := h.journal ++ [n] }) := rfl

theorem run_notes (ns : List Note) (h : Host) :
    (notes ns).run h = (.ok (), { h with journal := h.journal ++ ns }) := rfl

theorem run_change (a : DiskAct α) (h : Host) : (change a).run h =
    ((a.run h.disk).1.mapError .disk, { h with disk := (a.run h.disk).2 }) := by
  change (lift ((a.run h.disk).1.mapError .disk)).run { h with disk := (a.run h.disk).2 } = _
  exact run_lift _ _

theorem run_attempt (a : Act α) (h : Host) : (attempt a).run h = (.ok (a.run h).1, (a.run h).2) := by
  obtain ⟨r, h₁, hrun⟩ : ∃ r h₁, a.run h = (r, h₁) := ⟨_, _, rfl⟩
  rw [hrun]
  change a h = (r, h₁) at hrun
  -- the two returns leave through a layer of exceptions of their own
  simp only [attempt, EarlyReturnT.return, EarlyReturn.runK, ExceptT.run, bind, ExceptT.bind,
    ExceptT.mk, ExceptT.bindCont, StateT.bind, tryCatch, tryCatchThe, MonadExceptOf.tryCatch,
    ExceptT.tryCatch, throw, throwThe, MonadExceptOf.throw, hrun]
  cases r with
  | ok x => rfl
  | error e => rfl

end

section
variable {γ : Type} (view : Host → γ)

/-- What an operation gives, and what it does to a part of the machine, depend on that part alone. -/
def Only {α : Type} (a : Act α) : Prop :=
  ∀ h k : Host, view h = view k → (a.run h).1 = (a.run k).1 ∧ view (a.run h).2 = view (a.run k).2

/-- A part of the machine that has the disk in it, and the journal not. -/
structure Sees : Prop where
  disk : ∀ h k, view h = view k → h.disk = k.disk
  changed : ∀ h k d, view h = view k → view { h with disk := d } = view { k with disk := d }
  noted : ∀ h ns, view { h with journal := ns } = view h

/-- It has the network in it too, and makes no difference between equal requests. -/
structure SeesWeb : Prop extends Sees view where
  web : ∀ h k, view h = view k → h.web = k.web
  requested : ∀ h k r, view h = view k →
    view { h with requests := h.requests ++ [r] } = view { k with requests := k.requests ++ [r] }

theorem sees_disk : Sees Host.disk :=
  ⟨fun _ _ h => h, fun _ _ _ _ => rfl, fun _ _ => rfl⟩

end

section
variable {γ α β : Type} {view : Host → γ}

theorem only_pure (a : α) : Only view (pure a : Act α) := by
  intro h k hview
  rw [Effect.run_pure, Effect.run_pure]
  exact ⟨rfl, hview⟩

theorem only_throw (e : Fault) : Only view (throw e : Act α) := by
  intro h k hview
  rw [Effect.run_throw, Effect.run_throw]
  exact ⟨rfl, hview⟩

theorem only_lift (r : Except Fault α) : Only view (lift r) := by
  intro h k hview
  rw [run_lift, run_lift]
  exact ⟨rfl, hview⟩

/-- Two runs that see the same end alike. -/
theorem Only.cases (x : Act α) (hx : Only view x) (h k : Host) (hview : view h = view k) :
    ∃ r h₁ k₁, x.run h = (r, h₁) ∧ x.run k = (r, k₁) ∧ view h₁ = view k₁ := by
  obtain ⟨hresult, hafter⟩ := hx h k hview
  exact ⟨(x.run h).1, (x.run h).2, (x.run k).2, rfl, Prod.ext hresult.symm rfl, hafter⟩

theorem Only.bind (x : Act α) (f : α → Act β) (hx : Only view x) (hf : ∀ a, Only view (f a)) :
    Only view (x >>= f) := by
  intro h k hview
  obtain ⟨r, h₁, k₁, hh, hk, hafter⟩ := hx.cases x h k hview
  rw [Effect.run_bind, Effect.run_bind, hh, hk]
  cases r with
  | ok a => exact hf a h₁ k₁ hafter
  | error e => exact ⟨rfl, hafter⟩

theorem Only.tryCatch (x : Act α) (f : Fault → Act α) (hx : Only view x)
    (hf : ∀ e, Only view (f e)) : Only view (tryCatch x f) := by
  intro h k hview
  obtain ⟨r, h₁, k₁, hh, hk, hafter⟩ := hx.cases x h k hview
  rw [Effect.run_tryCatch, Effect.run_tryCatch, hh, hk]
  cases r with
  | ok a => exact ⟨rfl, hafter⟩
  | error e => exact hf e h₁ k₁ hafter

theorem Only.attempt (x : Act α) (hx : Only view x) : Only view (attempt x) := by
  intro h k hview
  obtain ⟨hresult, hafter⟩ := hx h k hview
  rw [run_attempt, run_attempt]
  exact ⟨congrArg Except.ok hresult, hafter⟩

theorem Only.mapM (f : α → Act β) (as : List α) (hf : ∀ a ∈ as, Only view (f a)) :
    Only view (as.mapM f) := by
  induction as with
  | nil => exact only_pure []
  | cons a as ih =>
    rw [List.forall_mem_cons] at hf
    rw [List.mapM_cons]
    apply Only.bind _ _ hf.1
    intro b
    exact Only.bind _ _ (ih hf.2) fun bs => only_pure (b :: bs)

variable (hview : Sees view)
include hview

theorem only_disk : Only view disk := by
  intro h k heq
  rw [run_disk, run_disk, hview.disk h k heq]
  exact ⟨rfl, heq⟩

theorem only_look (f : Disk → Except Fault α) : Only view (look f) := by
  intro h k heq
  rw [run_look, run_look, hview.disk h k heq]
  exact ⟨rfl, heq⟩

theorem only_notes (ns : List Note) : Only view (notes ns) := by
  intro h k heq
  rw [run_notes, run_notes]
  exact ⟨rfl, (hview.noted h _).trans (heq.trans (hview.noted k _).symm)⟩

theorem only_note (n : Note) : Only view (note n) :=
  only_notes hview [n]

theorem only_change (a : DiskAct α) : Only view (change a) := by
  intro h k heq
  rw [run_change, run_change, hview.disk h k heq]
  exact ⟨rfl, hview.changed h k _ heq⟩

end

section
variable {γ α β : Type}

/-- The same fault, or values in this relation. -/
inductive Both (R : α → β → Prop) : Except Fault α → Except Fault β → Prop
  | ok (a : α) (b : β) (h : R a b) : Both R (.ok a) (.ok b)
  | error (e : Fault) : Both R (.error e) (.error e)

variable {view : Host → γ}

/-- Where a part of the machine is the same, two operations end alike and leave it the same. -/
def Related (view : Host → γ) (R : α → β → Prop) (a : Act α) (b : Act β) : Prop :=
  ∀ h k : Host, view h = view k →
    Both R (a.run h).1 (b.run k).1 ∧ view (a.run h).2 = view (b.run k).2

theorem related_pure (R : α → β → Prop) (a : α) (b : β) (h : R a b) :
    Related view R (pure a) (pure b) := by
  intro _ _ hview
  rw [Effect.run_pure, Effect.run_pure]
  exact ⟨.ok a b h, hview⟩

theorem related_throw (R : α → β → Prop) (e : Fault) : Related view R (throw e) (throw e) := by
  intro _ _ hview
  rw [Effect.run_throw, Effect.run_throw]
  exact ⟨.error e, hview⟩

/-- An operation is related to itself through the values it can have. -/
theorem Only.related (a : Act α) (ha : Only view a) (P : α → Prop)
    (hP : ∀ h h' v, a.run h = (.ok v, h') → P v) :
    Related view (fun v w => v = w ∧ P v) a a := by
  intro h k hview
  obtain ⟨hresult, hafter⟩ := ha h k hview
  refine ⟨?_, hafter⟩
  rw [← hresult]
  cases hv : (a.run h).1 with
  | ok v => exact .ok v v ⟨rfl, hP h _ v (Prod.ext hv rfl)⟩
  | error e => exact .error e

theorem Related.bind {α' β' : Type} {R : α → β → Prop} {S : α' → β' → Prop} (a : Act α) (b : Act β)
    (f : α → Act α') (g : β → Act β') (h : Related view R a b)
    (hf : ∀ v w, R v w → Related view S (f v) (g w)) : Related view S (a >>= f) (b >>= g) := by
  intro h₁ k₁ hview
  obtain ⟨hresult, hafter⟩ := h h₁ k₁ hview
  rw [Effect.run_bind, Effect.run_bind]
  cases ha : a.run h₁ with
  | mk r h₂ =>
    cases hb : b.run k₁ with
    | mk s k₂ =>
      rw [ha, hb] at hresult hafter
      cases hresult with
      | ok v w hvw => exact hf v w hvw h₂ k₂ hafter
      | error e => exact ⟨.error e, hafter⟩

/-- The first operation is the same on both sides. -/
theorem Only.bind_related {α' β' : Type} {S : α' → β' → Prop} (a : Act α) (f : α → Act α')
    (g : α → Act β') (ha : Only view a) (hf : ∀ v, Related view S (f v) (g v)) :
    Related view S (a >>= f) (a >>= g) := by
  apply Related.bind a a f g (ha.related a (fun _ => True) fun _ _ _ _ => trivial)
  intro v w ⟨hvw, _⟩
  rw [hvw]
  exact hf w

end

/-- The operation leaves a part of the machine alone. -/
def Leaves {γ α : Type} (view : Host → γ) (a : Act α) : Prop :=
  ∀ h, view (a.run h).2 = view h

section
variable {γ α β : Type} {view : Host → γ}

/-- What is left alone stays what it is, whatever it is. -/
theorem leaves_iff (a : Act α) :
    Leaves view a ↔ ∀ part, Effect.Preserves (fun h => view h = part) a :=
  ⟨fun ha _ h hpart => (ha h).trans hpart, fun ha h => ha (view h) h rfl⟩

theorem leaves_pure (a : α) : Leaves view (pure a : Act α) := fun _ => rfl

theorem leaves_throw (e : Fault) : Leaves view (throw e : Act α) := fun _ => rfl

theorem leaves_lift (r : Except Fault α) : Leaves view (lift r) := by
  intro h
  rw [run_lift]

theorem leaves_look (f : Disk → Except Fault α) : Leaves view (look f) := by
  intro h
  rw [run_look]

theorem leaves_notes (hview : Sees view) (ns : List Note) : Leaves view (notes ns) :=
  fun h => hview.noted h _

theorem Leaves.bind (x : Act α) (f : α → Act β) (hx : Leaves view x) (hf : ∀ a, Leaves view (f a)) :
    Leaves view (x >>= f) :=
  (leaves_iff _).mpr fun part =>
    ((leaves_iff x).mp hx part).bind fun a => (leaves_iff (f a)).mp (hf a) part

theorem Leaves.attempt (a : Act α) (ha : Leaves view a) : Leaves view (attempt a) := by
  intro h
  rw [run_attempt]
  exact ha h

theorem Leaves.mapM (f : α → Act β) (as : List α) (hf : ∀ a, Leaves view (f a)) :
    Leaves view (as.mapM f) :=
  (leaves_iff _).mpr fun part => Effect.Preserves.mapM fun a _ => (leaves_iff (f a)).mp (hf a) part

end

/-- What holds of the disk holds after the operation, whether that goes well or not. -/
def Preserves {α : Type} (I : Disk → Prop) (a : Act α) : Prop :=
  ∀ h : Host, I h.disk → I (a.run h).2.disk

section
variable {α β : Type} {I : Disk → Prop}

theorem preserves_pure (a : α) : Preserves I (pure a : Act α) :=
  Effect.preserves_pure (I := fun h : Host => I h.disk) a

theorem preserves_throw (e : Fault) : Preserves I (throw e : Act α) :=
  Effect.preserves_throw (I := fun h : Host => I h.disk) e

theorem preserves_lift (r : Except Fault α) : Preserves I (lift r) := by
  intro h hI
  rw [run_lift]
  exact hI

theorem preserves_note (n : Note) : Preserves I (note n) := fun _ h => h

theorem preserves_change (a : DiskAct α) (ha : ∀ d, I d → I (a.run d).2) :
    Preserves I (change a) := by
  intro h hI
  rw [run_change]
  exact ha h.disk hI

/-- What holds after a change of the disk can depend on the result of the change. -/
theorem leads_change {J : Disk → Prop} {K : α → Disk → Prop} (a : DiskAct α) (f : α → Act β)
    (h : Host) (hok : ∀ v d, a.run h.disk = (.ok v, d) → K v d)
    (herror : ∀ e d, a.run h.disk = (.error e, d) → J d)
    (hf : ∀ v (k : Host), K v k.disk → J ((f v).run k).2.disk) :
    J ((change a >>= f).run h).2.disk := by
  rw [Effect.run_bind, run_change]
  cases hrun : a.run h.disk with
  | mk r d =>
    cases r with
    | ok v => exact hf v { h with disk := d } (hok v d hrun)
    | error e => exact herror e d hrun

theorem Preserves.bind (x : Act α) (f : α → Act β) (hx : Preserves I x)
    (hf : ∀ a, Preserves I (f a)) : Preserves I (x >>= f) :=
  Effect.Preserves.bind (I := fun h : Host => I h.disk) hx hf

theorem Preserves.tryCatch (x : Act α) (f : Fault → Act α) (hx : Preserves I x)
    (hf : ∀ e, Preserves I (f e)) : Preserves I (tryCatch x f) :=
  Effect.Preserves.tryCatch (I := fun h : Host => I h.disk) hx hf

theorem Preserves.mapM (f : α → Act β) (as : List α) (hf : ∀ a ∈ as, Preserves I (f a)) :
    Preserves I (as.mapM f) :=
  Effect.Preserves.mapM (I := fun h : Host => I h.disk) hf

end

/-- On machines with one disk or the other the operation does the same, which is no more than to
write in the journal. -/
def Blind {α : Type} (d e : Disk) (a : Act α) : Prop :=
  ∃ r ns, ∀ h : Host, h.disk = d ∨ h.disk = e →
    a.run h = (r, { h with journal := h.journal ++ ns })

section
variable {α β : Type} {d e : Disk}

theorem blind_lift (r : Except Fault α) : Blind d e (lift r) := by
  refine ⟨r, [], fun h _ => ?_⟩
  rw [run_lift, List.append_nil]

theorem blind_pure (a : α) : Blind d e (pure a) :=
  blind_lift (.ok a)

theorem blind_note (n : Note) : Blind d e (note n) :=
  ⟨.ok (), [n], fun h _ => run_note n h⟩

theorem blind_look (f : Disk → Except Fault α) (hf : f e = f d) : Blind d e (look f) := by
  refine ⟨f d, [], fun h hdisk => ?_⟩
  have hsame : f h.disk = f d := by
    rcases hdisk with hdisk | hdisk
    · rw [hdisk]
    · rw [hdisk, hf]
  rw [run_look, hsame, List.append_nil]

/-- What is done after a look at the disk is the same for both. -/
theorem blind_disk (f : Disk → Act α) (hf : f e = f d) (hd : Blind d e (f d)) :
    Blind d e (disk >>= f) := by
  obtain ⟨r, ns, hrun⟩ := hd
  refine ⟨r, ns, fun h hdisk => ?_⟩
  have hsame : f h.disk = f d := by
    rcases hdisk with hdisk | hdisk
    · rw [hdisk]
    · rw [hdisk, hf]
  rw [Effect.run_bind, run_disk, ← hrun h hdisk]
  simp only [hsame]

theorem Blind.bind (x : Act α) (f : α → Act β) (hx : Blind d e x)
    (hf : ∀ (h h' : Host) a, h.disk = d → x.run h = (.ok a, h') → Blind d e (f a)) :
    Blind d e (x >>= f) := by
  obtain ⟨r, ns, hrun⟩ := hx
  cases r with
  | error fault =>
    refine ⟨.error fault, ns, fun h hdisk => ?_⟩
    rw [Effect.run_bind, hrun h hdisk]
  | ok a =>
    obtain ⟨s, more, hnext⟩ := hf { disk := d } _ a rfl (hrun { disk := d } (.inl rfl))
    refine ⟨s, ns ++ more, fun h hdisk => ?_⟩
    rw [Effect.run_bind, hrun h hdisk, ← List.append_assoc]
    exact hnext { h with journal := h.journal ++ ns } hdisk

theorem Blind.foldlM (f : β → α → Act β) (as : List α) (hf : ∀ b, ∀ a ∈ as, Blind d e (f b a))
    (b : β) : Blind d e (as.foldlM f b) := by
  induction as generalizing b with
  | nil => exact blind_pure b
  | cons a as ih =>
    rw [List.foldlM_cons]
    refine Blind.bind _ _ (hf b a (List.mem_cons_self ..)) fun _ _ c _ _ => ?_
    exact ih (fun b a ha => hf b a (List.mem_cons_of_mem _ ha)) c

end

end DocNavigation.Act
