import DocNavigation.Proofs.Disk.Outcome

/-!
Places of a disk that are set aside. What never comes by them does the same on two disks that differ
there, and leaves those places as they are.
-/

namespace DocNavigation

namespace Disk

section
variable (aside : Place → Prop)

/-- The disks differ at most at places set aside. -/
structure SameBut (d d' : Disk) : Prop where
  workdir : d'.workdir = d.workdir
  failing : d'.failing = d.failing
  entries : ∀ q, ¬ aside q → d'.at? q = d.at? q

/-- What can become of a disk. Aside there are only links that were there before, and elsewhere
nothing goes away and no links and no folders come in the place of anything. -/
structure Later (d₀ d : Disk) : Prop where
  workdir : d.workdir = d₀.workdir
  links : ∀ q t, ¬ aside q → d.at? q = some (.link t) → d₀.at? q = some (.link t)
  free : ∀ q, ¬ aside q → d.at? q = none → d₀.at? q = none
  folders : ∀ q, ¬ aside q → d.at? q = some .folder → d₀.at? q = none ∨ d₀.at? q = some .folder
  moved : ∀ q t, aside q → d.at? q = some (.link t) → ∃ r, aside r ∧ d₀.at? r = some (.link t)

/-- The path comes by no place set aside. -/
def Clear (d : Disk) (path : String) : Prop :=
  ∀ rest q, d.Passes d.ground path rest q → ¬ aside q

/-- What became of two disks. -/
structure Beside (d₀ d₀' d d' : Disk) : Prop where
  same : SameBut aside d d'
  later : Later aside d₀ d
  later' : Later aside d₀' d'

end

variable {aside : Place → Prop}

theorem SameBut.refl (d : Disk) : SameBut aside d d :=
  ⟨rfl, rfl, fun _ _ => rfl⟩

theorem SameBut.symm (d d' : Disk) (h : SameBut aside d d') : SameBut aside d' d :=
  ⟨h.workdir.symm, h.failing.symm, fun q hq => (h.entries q hq).symm⟩

theorem SameBut.trans (d d₁ d' : Disk) (h : SameBut aside d d₁) (h' : SameBut aside d₁ d') :
    SameBut aside d d' :=
  ⟨h'.workdir.trans h.workdir, h'.failing.trans h.failing,
    fun q hq => (h'.entries q hq).trans (h.entries q hq)⟩

theorem Later.refl (d : Disk) : Later aside d d :=
  ⟨rfl, fun _ _ _ h => h, fun _ _ h => h, fun _ _ h => .inr h, fun q _ hq h => ⟨q, hq, h⟩⟩

theorem SameBut.absolute (d d' : Disk) (h : SameBut aside d d') (path : String) :
    d'.absolute path = d.absolute path := by
  rw [Disk.absolute, Disk.absolute, h.workdir]

theorem Later.start (d₀ d : Disk) (h : Later aside d₀ d) (path : String) :
    d.start path = d₀.start path := by
  rw [Disk.start, Disk.start, h.workdir]

theorem Later.opens (d₀ d : Disk) (h : Later aside d₀ d) (q : Place) (hq : ¬ aside q)
    (hopen : d.ground.opens q) : d₀.ground.opens q := by
  rcases hopen with hfree | hfolder
  · exact .inl (h.free q hq hfree)
  · exact h.folders q hq hfolder

/-- A path that is clear comes by no new places. -/
theorem Clear.later (d₀ d : Disk) (path : String) (hclear : Clear aside d₀ path)
    (h : Later aside d₀ d) : Clear aside d path := by
  intro rest q hpass
  apply hclear rest q
  rw [Passes, h.start] at hpass
  apply hpass.mono
  · intro r t rest hmet
    exact h.links r t (hclear rest r hmet)
  · intro r rest hmet
    exact h.opens d₀ d r (hclear rest r hmet)

theorem Clear.folder (d : Disk) (path : String) (h : Clear aside d path) :
    Clear aside d (Path.folder path) := by
  intro rest q hpass
  obtain ⟨more, hmore⟩ := d.passes_split d.ground path rest q hpass
  exact h _ q hmore

theorem Clear.lastName (d : Disk) (path : String) (h : Clear aside d path) :
    Clear aside d (lastName path).1 := by
  intro rest q hpass
  obtain ⟨more, hmore⟩ := d.passes_lastName d.ground path rest q hpass
  exact h _ q hmore

theorem Later.put (d₀ d : Disk) (h : Later aside d₀ d) (p : Place) (e : DiskEntry) (hne : p ≠ [])
    (hlink : ∀ t, e ≠ .link t) (hfree : e = .folder → d.at? p = none) :
    Later aside d₀ (d.put p e) := by
  have hput := fun q => at?_put d p q e hne
  refine ⟨h.workdir, ?_, ?_, ?_, ?_⟩
  · intro q t hq hat
    rw [hput] at hat
    split at hat
    · exact absurd (Option.some.inj hat) (hlink t)
    · exact h.links q t hq hat
  · intro q hq hat
    rw [hput] at hat
    split at hat
    · cases hat
    · exact h.free q hq hat
  · intro q hq hat
    rw [hput] at hat
    split at hat
    case isTrue hqp =>
      rw [hqp] at hq ⊢
      exact .inl (h.free p hq (hfree (Option.some.inj hat)))
    case isFalse => exact h.folders q hq hat
  · intro q t hq hat
    rw [hput] at hat
    split at hat
    · exact absurd (Option.some.inj hat) (hlink t)
    · exact h.moved q t hq hat

section
variable (d₀ d₀' d d' : Disk) (h : Beside aside d₀ d₀' d d')
include h

theorem Beside.put (p : Place) (e : DiskEntry) (hne : p ≠ []) (hp : ¬ aside p)
    (hlink : ∀ t, e ≠ .link t) (hfree : e = .folder → d.at? p = none) :
    Beside aside d₀ d₀' (d.put p e) (d'.put p e) := by
  refine ⟨⟨h.same.workdir, h.same.failing, ?_⟩, h.later.put _ _ p e hne hlink hfree,
    h.later'.put _ _ p e hne hlink ?_⟩
  · intro q hq
    rw [at?_put _ _ _ _ hne, at?_put _ _ _ _ hne, h.same.entries q hq]
  · intro hfolder
    rw [h.same.entries p hp]
    exact hfree hfolder

variable (path : String) (hclear : Clear aside d₀ path)
include hclear

theorem Beside.clear (rest : List String) (q : Place) (hpass : d.Passes d.ground path rest q) :
    ¬ aside q :=
  hclear.later d₀ d path h.later rest q hpass

theorem Beside.entries (rest : List String) (q : Place) (hpass : d.Passes d.ground path rest q) :
    d'.at? q = d.at? q :=
  h.same.entries q (h.clear d₀ d₀' d d' path hclear rest q hpass)

theorem Beside.resolve (atEnd : Bool) : d'.resolve atEnd path = d.resolve atEnd path :=
  resolve_unchanged d d' path h.same.workdir (h.entries _ _ _ _ path hclear) atEnd

theorem Beside.isThere : d'.isThere path = d.isThere path :=
  isThere_unchanged d d' path h.same.workdir (h.entries _ _ _ _ path hclear)

theorem Beside.isFile : d'.isFile path = d.isFile path :=
  isFile_unchanged d d' path h.same.workdir (h.entries _ _ _ _ path hclear)

theorem Beside.isFolder : d'.isFolder path = d.isFolder path :=
  isFolder_unchanged d d' path h.same.workdir (h.entries _ _ _ _ path hclear)

theorem Beside.readFile : d'.readFile path = d.readFile path :=
  readFile_unchanged d d' path h.same.workdir (h.entries _ _ _ _ path hclear)

end

section
variable (d₀ d₀' : Disk) (path : String) (hclear : Clear aside d₀ path)
include hclear

theorem twins_makeFolder :
    Effect.Twins (Beside aside d₀ d₀') Eq (makeFolder path) (makeFolder path) := by
  intro d d' h
  rw [run_makeFolder, run_makeFolder, h.same.failing, h.resolve _ _ _ _ path hclear]
  split
  · exact .error _ d d' h
  · split
    · exact .error _ d d' h
    · exact .error _ d d' h
    · next p hp =>
      obtain ⟨hpass, hfree⟩ := find_vacant d false path p ((resolve_eq_ok_iff d false path _).mp hp).2
      have hp := h.clear _ _ _ _ path hclear [] p hpass
      exact .ok () () _ _ rfl (h.put _ _ _ _ p .folder hpass.ne_nil hp nofun fun _ => hfree)

theorem twins_makeLast :
    Effect.Twins (Beside aside d₀ d₀') Eq (makeLast path) (makeLast path) := by
  refine Effect.Twins.tryCatch (twins_makeFolder d₀ d₀' path hclear) fun e => ?_
  refine Effect.Twins.bind Effect.twins_get fun d d' h => ?_
  rw [h.isFolder _ _ _ _ path hclear]
  split
  · exact Effect.twins_pure () () rfl
  · exact Effect.twins_throw e

theorem twins_makeFoldersBelow (fuel : Nat) : Effect.Twins (Beside aside d₀ d₀') Eq
    (makeFoldersBelow fuel path) (makeFoldersBelow fuel path) := by
  induction fuel generalizing path with
  | zero => exact Effect.twins_pure () () rfl
  | succ fuel ih =>
    have hup := hclear.lastName d₀ path
    have habove := ih (lastName path).1 hup
    have hlast := twins_makeLast d₀ d₀' path hclear
    unfold makeFoldersBelow
    generalize lastName path = l at hup habove
    obtain ⟨above, name⟩ := l
    refine Effect.Twins.bind Effect.twins_get fun d d' h => ?_
    have hthere := h.isThere _ _ _ _ above hup
    simp only [hthere]
    split
    · refine Effect.Twins.bind_same (Effect.Twins.tryCatch habove fun e => ?_)
        fun _ => hlast
      split
      · exact Effect.twins_pure () () rfl
      · exact Effect.twins_throw _
    · exact hlast

theorem twins_makeFolders :
    Effect.Twins (Beside aside d₀ d₀') Eq (makeFolders path) (makeFolders path) :=
  twins_makeFoldersBelow d₀ d₀' path hclear _

end

theorem placing_goal (d : Disk) (target text encoding : String) (q : Place) (bytes : ByteArray)
    (h : d.placing target text encoding = .ok (q, bytes)) :
    ∃ temporary, d.goal temporary target = .ok q := by
  rw [placing] at h
  split at h
  · cases h
  split at h
  · cases h
  rw [filling] at h
  split at h
  · cases h
  split at h
  · cases h
  split at h
  · cases h
  split at h
  case h_1 p hp =>
    cases h
    exact ⟨_, hp⟩
  case h_2 => cases h

/-- A place that a move fills is met last on the way to its path. -/
theorem goal_met (d : Disk) (temporary target : String) (q : Place)
    (h : d.goal temporary target = .ok q) : d.Passes d.ground target [] q := by
  rw [goal] at h
  by_cases hbusy : (namesIn target).all (· = ".") = true
  · simp only [hbusy, if_true] at h
    cases h
  simp only [hbusy, Bool.false_eq_true, if_false] at h
  have hmet : ∀ f, d.resolve false target = .ok f → (∀ p, f ≠ .entry p .folder) →
      d.Passes d.ground target [] f.place := by
    intro f hf hfolder
    obtain ⟨-, hf⟩ := (resolve_eq_ok_iff d false target f).mp hf
    obtain ⟨p, hp, rfl⟩ := find_met_noFolder d false target f hfolder hf
    rw [landing_place]
    exact hp
  cases hr : d.resolve false target with
  | error e =>
    rw [hr] at h
    cases e <;> cases h
  | ok f =>
    rw [hr] at h hmet
    rcases f with ⟨p, _ | _ | _⟩ | p
    · cases h
      exact hmet _ rfl (by rintro p ⟨⟩)
    · cases h
    · cases h
      exact hmet _ rfl (by rintro p ⟨⟩)
    · cases h
      exact hmet _ rfl (by rintro p ⟨⟩)

section
variable (d₀ d₀' d d' : Disk) (h : Beside aside d₀ d₀' d d') (target : String)
  (hclear : Clear aside d₀ target) (text encoding : String)
include h hclear

theorem Beside.placing : d'.placing target text encoding = d.placing target text encoding := by
  have hgoal : ∀ temporary, d'.goal temporary target = d.goal temporary target := by
    intro temporary
    rw [goal, goal, h.resolve _ _ _ _ target hclear]
  simp only [Disk.placing, filling, h.same.failing, hgoal]

theorem Beside.placed (q : Place) (bytes : ByteArray)
    (hplacing : d.placing target text encoding = .ok (q, bytes)) : ¬ aside q ∧ q ≠ [] := by
  obtain ⟨temporary, hgoal⟩ := placing_goal d target text encoding q bytes hplacing
  have hmet := goal_met d temporary target q hgoal
  exact ⟨h.clear _ _ _ _ target hclear [] q hmet, hmet.ne_nil⟩

end

end Disk

namespace Host

/-- Machines with disks beside each other, and the same otherwise, whatever their journals say. -/
structure Beside (aside : Place → Prop) (d₀ d₀' : Disk) (h h' : Host) : Prop where
  disk : Disk.Beside aside d₀ d₀' h.disk h'.disk
  vars : h'.vars = h.vars
  homes : h'.homes = h.homes
  web : h'.web = h.web
  requests : h'.requests = h.requests

theorem Beside.change {aside : Place → Prop} (d₀ d₀' : Disk) (h h' : Host)
    (hb : Beside aside d₀ d₀' h h') (e e' : Disk) (he : Disk.Beside aside d₀ d₀' e e') :
    Beside aside d₀ d₀' { h with disk := e } { h' with disk := e' } :=
  ⟨he, hb.vars, hb.homes, hb.web, hb.requests⟩

theorem Beside.journal {aside : Place → Prop} (d₀ d₀' : Disk) (h h' : Host)
    (hb : Beside aside d₀ d₀' h h') (ns ns' : List Note) :
    Beside aside d₀ d₀' { h with journal := ns } { h' with journal := ns' } :=
  ⟨hb.disk, hb.vars, hb.homes, hb.web, hb.requests⟩

end Host

section
open Effect
variable {aside : Place → Prop} {d₀ d₀' : Disk}

namespace Act

theorem twins_lift (R : Host → Host → Prop) (r : Except Fault α) :
    Twins R Eq (lift r) (lift r) := by
  intro h h' hR
  rw [run_lift, run_lift]
  exact alike_same r h h' hR

theorem twins_attempt (R : Host → Host → Prop) (a : Act α) (ha : Twins R Eq a a) :
    Twins R Eq (attempt a) (attempt a) := by
  intro h h' hR
  have hrun := ha h h' hR
  rw [run_attempt, run_attempt]
  exact .ok _ _ _ _ hrun.result hrun.state

theorem twins_disk : Twins (Host.Beside aside d₀ d₀') (Disk.Beside aside d₀ d₀') disk disk :=
  fun h h' hb => .ok _ _ h h' hb.disk hb

theorem twins_look (f : Disk → Except Fault α)
    (hf : ∀ d d', Disk.Beside aside d₀ d₀' d d' → f d' = f d) :
    Twins (Host.Beside aside d₀ d₀') Eq (look f) (look f) := by
  intro h h' hb
  rw [run_look, run_look, hf _ _ hb.disk]
  exact alike_same _ h h' hb

theorem twins_notes (ns ns' : List Note) :
    Twins (Host.Beside aside d₀ d₀') Eq (notes ns) (notes ns') :=
  fun h h' hb => .ok () () _ _ rfl (hb.journal _ _ h h' _ _)

theorem twins_note (n n' : Note) : Twins (Host.Beside aside d₀ d₀') Eq (note n) (note n') :=
  twins_notes [n] [n']

theorem twins_change (a : DiskAct α) (ha : Twins (Disk.Beside aside d₀ d₀') Eq a a) :
    Twins (Host.Beside aside d₀ d₀') Eq (change a) (change a) := by
  intro h h' hb
  have hrun := ha _ _ hb.disk
  rw [run_change, run_change, hrun.result]
  exact alike_same _ _ _ (hb.change _ _ _ _ _ _ hrun.state)

end Act

namespace Disk

theorem twins_replaceFile (path text encoding : String)
    (hclear : Clear aside d₀ (d₀.absolute path)) :
    Twins (Host.Beside aside d₀ d₀') Eq (replaceFile path text encoding)
      (replaceFile path text encoding) := by
  intro k k' hb
  have htarget : k.disk.absolute path = d₀.absolute path := by
    rw [Disk.absolute, Disk.absolute, hb.disk.later.workdir]
  have hmake := twins_makeFolders d₀ d₀' _ (hclear.folder d₀ _) _ _ hb.disk
  rw [run_replaceFile, run_replaceFile, hb.disk.same.absolute, htarget]
  generalize d₀.absolute path = target at hclear hmake
  simp only
  cases hmade : (makeFolders (Path.folder target)).run k.disk with
  | mk r e =>
    cases hmade' : (makeFolders (Path.folder target)).run k'.disk with
    | mk r' e' =>
      rw [hmade, hmade'] at hmake
      cases hmake with
      | error fault _ _ hbeside => exact .error _ _ _ (hb.change _ _ _ _ _ _ hbeside)
      | ok _ _ _ _ _ hbeside =>
        simp only
        rw [hbeside.placing _ _ _ _ target hclear]
        cases hplacing : e.placing target text encoding with
        | error fault => exact .error _ _ _ (hb.change _ _ _ _ _ _ hbeside)
        | ok r =>
          obtain ⟨q, bytes⟩ := r
          obtain ⟨hq, hne⟩ := hbeside.placed _ _ _ _ target hclear text encoding q bytes hplacing
          have hput := hbeside.put _ _ _ _ q (.file bytes) hne hq (by rintro t ⟨⟩) (by rintro ⟨⟩)
          exact .ok _ _ _ _ rfl (hb.change _ _ _ _ _ _ hput)

end Disk

end

end DocNavigation
