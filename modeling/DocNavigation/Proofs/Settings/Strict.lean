import DocNavigation.Settings.Check

/-!
Strict and lenient checks. Both come to the same verdict and only report it differently: the warnings
of a lenient check are what a strict one stops at.
-/

namespace DocNavigation

/-- What a strict check says in place of a warning. -/
def Warning.finding : Warning → Finding
  | .replaced f => f
  | .numberToSwitch field value => .notSwitch field value.kind
  | .textToSwitch field value _ => .notSwitch field (Json.str value).kind
  | .textToCount field value => .notCount field (.str value)

/-- What a check comes to: all there is to warn of, and a value unless there is none to be had. -/
structure Verdict (α : Type) where
  warnings : List Warning
  result : Except SettingError α

/-- A strict check stops at the first warning, a lenient one adds them all to those before. -/
def Verdict.report {α : Type} (v : Verdict α) (strict : Bool) (before : List Warning) :
    Except SettingError (α × List Warning) :=
  match strict, v.warnings with
  | true, w :: _ => .error (.finding w.finding)
  | _, ws => v.result.map fun a => (a, before ++ ws)

section
variable {α : Type} (v : Verdict α) (before : List Warning)

theorem Verdict.report_lenient :
    v.report false before = v.result.map fun a => (a, before ++ v.warnings) := rfl

theorem Verdict.report_unwarned (strict : Bool) (h : v.warnings = []) :
    v.report strict before = v.result.map fun a => (a, before) := by
  cases strict <;> simp [report, h]

theorem Verdict.report_warned (w : Warning) (ws : List Warning) (h : v.warnings = w :: ws) :
    v.report true before = .error (.finding w.finding) := by
  simp [report, h]

end

/-- Without a warning before, no value is to be had only for want of a path. -/
def Verdict.Fair {α : Type} (v : Verdict α) : Prop :=
  v.warnings = [] → ∀ e, v.result = .error e → ∃ p, e = .path p

namespace Judging

/-- The check comes to one verdict, whether it is strict or not. -/
def Uniform {α : Type} (x : Bool → Judging α) : Prop :=
  ∃ v : Verdict α, v.Fair ∧ ∀ strict before, (x strict).run before = v.report strict before

section
variable {α β : Type}

/-- A check that warns of nothing. -/
theorem Uniform.of_result (x : Judging α) (r : Except SettingError α)
    (hr : ∀ e, r = .error e → ∃ p, e = .path p)
    (hx : ∀ before, x.run before = r.map fun a => (a, before)) : Uniform fun _ => x := by
  refine ⟨⟨[], r⟩, fun _ => hr, fun strict before => ?_⟩
  rw [hx, Verdict.report_unwarned _ _ _ rfl]

theorem Uniform.pure (a : α) : Uniform fun _ => (Pure.pure a : Judging α) :=
  Uniform.of_result _ (.ok a) nofun fun _ => rfl

/-- A strict check stops where a lenient one warns and goes on. -/
theorem Uniform.of_warning (x : Bool → Judging α) (w : Warning) (r : Except SettingError α)
    (hstrict : ∀ before, (x true).run before = .error (.finding w.finding))
    (hlenient : ∀ before, (x false).run before = r.map fun a => (a, before ++ [w])) : Uniform x := by
  refine ⟨⟨[w], r⟩, nofun, fun strict before => ?_⟩
  cases strict with
  | true => exact hstrict before
  | false => exact hlenient before

theorem Uniform.bind (x : Bool → Judging α) (f : Bool → α → Judging β) (hx : Uniform x)
    (hf : ∀ a, Uniform fun strict => f strict a) : Uniform fun strict => x strict >>= f strict := by
  obtain ⟨⟨ws, r⟩, hfair, hx⟩ := hx
  cases r with
  | error e =>
    refine ⟨⟨ws, .error e⟩, fun hnone e' he => ?_, fun strict before => ?_⟩
    · cases he
      exact hfair hnone e rfl
    · rw [StateT.run_bind, hx]
      cases strict <;> cases ws <;> rfl
  | ok a =>
    obtain ⟨⟨us, q⟩, hfair', hf⟩ := hf a
    refine ⟨⟨ws ++ us, q⟩, fun hnone => hfair' (List.append_eq_nil_iff.mp hnone).2,
      fun strict before => ?_⟩
    rw [StateT.run_bind, hx]
    cases ws with
    | nil =>
      rw [Verdict.report_unwarned _ _ _ rfl]
      exact hf strict before
    | cons w ws =>
      -- what was found first decides
      cases strict with
      | true => rfl
      | false =>
        rw [Verdict.report_lenient]
        refine (hf false (before ++ w :: ws)).trans ?_
        rw [Verdict.report_lenient, Verdict.report_lenient, List.append_assoc]

theorem Uniform.foldlM (f : Bool → β → α → Judging β) (as : List α) (b : β)
    (hf : ∀ b a, Uniform fun strict => f strict b a) :
    Uniform fun strict => as.foldlM (f strict) b := by
  induction as generalizing b with
  | nil => exact Uniform.pure b
  | cons a as ih =>
    simp only [List.foldlM_cons]
    exact Uniform.bind _ _ (hf b a) ih

theorem Uniform.mapM (f : Bool → α → Judging β) (as : List α)
    (hf : ∀ a, Uniform fun strict => f strict a) : Uniform fun strict => as.mapM (f strict) := by
  induction as with
  | nil => exact Uniform.pure []
  | cons a as ih =>
    simp only [List.mapM_cons]
    exact Uniform.bind _ _ (hf a) fun b => Uniform.bind _ _ ih fun bs => Uniform.pure (b :: bs)

end

end Judging

namespace Settings

open Judging

theorem uniform_fault {α : Type} (f : Finding) (replacement : α) :
    Uniform fun strict => fault strict f replacement :=
  Uniform.of_warning _ (.replaced f) (.ok replacement) (fun _ => rfl) fun _ => rfl

theorem uniform_checkText (field fallback : String) (v : Option Json) :
    Uniform fun strict => checkText strict field fallback v := by
  unfold checkText
  split
  · exact Uniform.pure _
  · exact Uniform.pure _
  · exact Uniform.pure _
  · exact uniform_fault _ _

/-- A value that is neither null nor a switch is warned of, whatever is made of it. -/
theorem checkSwitch_warns (field : String) (fallback : Bool) (v : Json) (hnull : v ≠ .null)
    (hbool : ∀ b, v ≠ .bool b) :
    checkSwitch true field fallback (some v) = fault true (.notSwitch field v.kind) fallback ∧
      ∃ w b, w.finding = .notSwitch field v.kind ∧
        checkSwitch false field fallback (some v) = (do warn w; return b) := by
  have hfault : ∀ kind, ∃ w b, w.finding = .notSwitch field kind ∧
      (fault false (.notSwitch field kind) fallback : Judging Bool) = (do warn w; return b) :=
    fun kind => ⟨.replaced (.notSwitch field kind), fallback, rfl, rfl⟩
  cases v with
  | null => exact absurd rfl hnull
  | bool b => exact absurd rfl (hbool b)
  | int n =>
    refine ⟨rfl, ?_⟩
    unfold checkSwitch
    simp only [Bool.false_eq_true, if_false]
    cases bit? (.int n) with
    | some b => exact ⟨.numberToSwitch field (.int n), b, rfl, rfl⟩
    | none => exact hfault "int"
  | float x =>
    refine ⟨rfl, ?_⟩
    unfold checkSwitch
    simp only [Bool.false_eq_true, if_false]
    cases bit? (.float x) with
    | some b => exact ⟨.numberToSwitch field (.float x), b, rfl, rfl⟩
    | none => exact hfault "float"
  | str s =>
    refine ⟨by unfold checkSwitch; exact if_pos rfl, ?_⟩
    unfold checkSwitch
    simp only [bit?]
    -- which word it is does not matter
    generalize Json.getKey? switchWords (Text.lowerAscii (Text.trim s)) = word
    cases word with
    | some b => exact ⟨.textToSwitch field s b, b, rfl, rfl⟩
    | none => exact hfault "str"
  | arr items => exact ⟨rfl, hfault "list"⟩
  | obj fields => exact ⟨rfl, hfault "dict"⟩

/-- A switch is taken as it is, or warned of. -/
theorem checkSwitch_cases (field : String) (fallback : Bool) (v : Option Json) :
    (∃ b, ∀ strict, checkSwitch strict field fallback v = pure b) ∨
    ∃ w b, checkSwitch true field fallback v = fault true w.finding fallback ∧
      checkSwitch false field fallback v = (do warn w; return b) := by
  have hother : ∀ v : Json, v ≠ .null → (∀ b, v ≠ .bool b) →
      ∃ w b, checkSwitch true field fallback (some v) = fault true w.finding fallback ∧
        checkSwitch false field fallback (some v) = (do warn w; return b) := by
    intro v hnull hbool
    obtain ⟨hstrict, w, b, hw, hlenient⟩ := checkSwitch_warns field fallback v hnull hbool
    exact ⟨w, b, by rw [hstrict, hw], hlenient⟩
  match v with
  | none | some .null | some (.bool b) => exact .inl ⟨_, fun _ => rfl⟩
  | some (.int n) => exact .inr (hother _ nofun nofun)
  | some (.float x) => exact .inr (hother _ nofun nofun)
  | some (.str s) => exact .inr (hother _ nofun nofun)
  | some (.arr items) => exact .inr (hother _ nofun nofun)
  | some (.obj fields) => exact .inr (hother _ nofun nofun)

theorem uniform_checkSwitch (field : String) (fallback : Bool) (v : Option Json) :
    Uniform fun strict => checkSwitch strict field fallback v := by
  rcases checkSwitch_cases field fallback v with ⟨b, hb⟩ | ⟨w, b, hstrict, hlenient⟩
  · simp only [hb]
    exact Uniform.pure b
  · refine Uniform.of_warning _ w (.ok b) (fun _ => ?_) fun _ => ?_
    · rw [hstrict]
      rfl
    · rw [hlenient]
      rfl

theorem uniform_checkCount (field : String) (fallback : Nat) (v : Option Json) :
    Uniform fun strict => checkCount strict field fallback v := by
  unfold checkCount
  split
  · exact Uniform.pure _
  · exact Uniform.pure _
  · exact Uniform.pure _
  case h_4 s =>
    cases hdigits : isDigits (Text.trim s) with
    | false =>
      simp only [hdigits, Bool.and_false, Bool.false_eq_true, if_false]
      exact uniform_fault _ _
    | true =>
      -- digits are read by a lenient check only, and warned of before they are
      refine Uniform.of_warning _ (.textToCount field s)
        (((Number.readInteger (Text.trim s)).map Int.toNat).mapError (.integer · (Text.trim s)))
        (fun _ => ?_) fun before => ?_
      · simp only [hdigits]
        rfl
      · simp only [hdigits]
        cases Number.readInteger (Text.trim s) <;> rfl
  case h_5 => exact uniform_fault _ _

theorem uniform_checkTexts (field : String) (fallback : List String) (v : Option Json) :
    Uniform fun strict => checkTexts strict field fallback v := by
  have hitem : ∀ item, Uniform fun strict => checkItem strict field item := by
    intro item
    unfold checkItem
    split
    · exact Uniform.pure _
    · exact uniform_fault _ _
  unfold checkTexts
  split
  · exact Uniform.pure _
  · exact Uniform.pure _
  · exact Uniform.pure _
  · exact Uniform.bind _ _ (Uniform.mapM _ _ hitem) fun _ => Uniform.pure _
  · exact uniform_fault _ _

section
variable (env : Environment)

theorem uniform_located (text fallback : String) : Uniform fun _ => located env text fallback := by
  refine Uniform.of_result _ ((Path.resolve env text fallback).mapError .path) ?_ fun before => ?_
  · intro e he
    cases hpath : Path.resolve env text fallback with
    | ok path =>
      rw [hpath] at he
      cases he
    | error p =>
      rw [hpath] at he
      cases he
      exact ⟨p, rfl⟩
  · unfold located
    cases Path.resolve env text fallback <;> rfl

theorem uniform_locatedFolder (text : String) : Uniform fun _ => locatedFolder env text := by
  unfold locatedFolder
  split
  · exact Uniform.pure _
  · exact uniform_located env text ""

theorem uniform_locatedSource (source : String) : Uniform fun _ => locatedSource env source := by
  unfold locatedSource
  split
  · exact Uniform.pure _
  · exact uniform_located env source source

theorem uniform_checkRoot (roots : List (String × String)) (entry : String × Json) :
    Uniform fun strict => checkRoot env strict roots entry := by
  unfold checkRoot
  simp only
  split
  · split
    · exact uniform_fault _ _
    · exact Uniform.bind _ _ (uniform_located env _ _) fun _ => Uniform.pure _
  · exact uniform_fault _ _

theorem uniform_checkRoots (v : Option Json) : Uniform fun strict => checkRoots env strict v := by
  unfold checkRoots
  split
  · exact Uniform.pure _
  · exact Uniform.pure _
  · exact Uniform.foldlM _ _ _ (uniform_checkRoot env)
  · exact uniform_fault _ _

theorem uniform_checkPriority (word : String) : Uniform fun strict => checkPriority strict word := by
  unfold checkPriority
  split
  · exact Uniform.pure _
  · exact uniform_fault _ _

theorem uniform_checkFields (fields : List (String × Json)) :
    Uniform fun strict => checkFields env strict fields := by
  unfold checkFields
  refine Uniform.bind _ _ (uniform_checkText _ _ _) fun output => ?_
  refine Uniform.bind _ _ (uniform_checkText _ _ _) fun scripts => ?_
  refine Uniform.bind _ _ (uniform_checkText _ _ _) fun logLevel => ?_
  refine Uniform.bind _ _ (uniform_checkText _ _ _) fun logFile => ?_
  refine Uniform.bind _ _ (uniform_checkText _ _ _) fun priority => ?_
  refine Uniform.bind _ _ (uniform_checkSwitch _ _ _) fun respect => ?_
  refine Uniform.bind _ _ (uniform_checkCount _ _ _) fun workers => ?_
  refine Uniform.bind _ _ (uniform_checkTexts _ _ _) fun extensions => ?_
  refine Uniform.bind _ _ (uniform_checkTexts _ _ _) fun included => ?_
  refine Uniform.bind _ _ (uniform_checkTexts _ _ _) fun excluded => ?_
  refine Uniform.bind _ _ (uniform_checkTexts _ _ _) fun mergeWith => ?_
  refine Uniform.bind _ _ (uniform_checkRoots env _) fun roots => ?_
  refine Uniform.bind _ _ (uniform_located env _ _) fun output => ?_
  refine Uniform.bind _ _ (uniform_locatedFolder env _) fun scripts => ?_
  refine Uniform.bind _ _ (Uniform.mapM _ _ (uniform_locatedSource env)) fun mergeWith => ?_
  exact Uniform.bind _ _ (uniform_checkPriority _) fun priority => Uniform.pure _

/-- One verdict on every configuration. -/
theorem exists_verdict (config : Json) : ∃ v : Verdict Settings, v.Fair ∧
    ∀ strict, check env strict config = v.report strict [] := by
  have hof : ∀ x : Bool → Judging Settings, Uniform x →
      (∀ strict, check env strict config = (x strict).run []) →
      ∃ v : Verdict Settings, v.Fair ∧ ∀ strict, check env strict config = v.report strict [] := by
    intro x ⟨v, hfair, hrun⟩ hcheck
    exact ⟨v, hfair, fun strict => (hcheck strict).trans (hrun strict [])⟩
  cases config with
  | obj fields => exact hof _ (uniform_checkFields env fields) fun _ => rfl
  | _ => exact hof _ (uniform_fault _ _) fun _ => rfl

/-- A strict check accepts exactly the configurations that a lenient one accepts without a warning, and
makes the same settings of them. Where there are warnings it stops at the first one; otherwise only for
a path. -/
theorem strict_agrees (config : Json) :
    (∀ s ws, check env true config = .ok (s, ws) ↔
      check env false config = .ok (s, []) ∧ ws = []) ∧
    (∀ s w ws, check env false config = .ok (s, w :: ws) →
      check env true config = .error (.finding w.finding)) ∧
    ∀ e, check env true config = .error e →
      (∃ f, e = .finding f ∧ (e.blame = .type ∨ e.blame = .value)) ∨
        ∃ p, e = .path p ∧ e.blame = .value := by
  obtain ⟨⟨ws, r⟩, hfair, hreport⟩ := exists_verdict env config
  simp only [hreport, Verdict.report_lenient]
  cases ws with
  | nil =>
    rw [Verdict.report_unwarned _ _ _ rfl]
    cases r with
    | ok a => simp [Except.map, eq_comm]
    | error e =>
      obtain ⟨p, rfl⟩ := hfair rfl e rfl
      refine ⟨by simp [Except.map], by simp [Except.map], fun e he => .inr ⟨p, ?_⟩⟩
      cases he
      exact ⟨rfl, rfl⟩
  | cons w ws =>
    rw [Verdict.report_warned _ _ w ws rfl]
    have hblame : ∀ e : SettingError, e.blame = .type ∨ e.blame = .value := by
      intro e
      cases e.blame <;> simp
    cases r with
    | ok a => simp [Except.map, hblame]
    | error e => simp [Except.map, hblame]

end

end Settings

end DocNavigation
