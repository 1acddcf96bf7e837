import DocNavigation.Template.Render
import Mathlib.Data.List.Basic
import Mathlib.Tactic.SplitIfs

/-!
Who is to blame when a template cannot be rendered. Most faults are the template's own. The caller's
are those of a field that enters a value by a name or an index, and of a number that the
specification of its field cannot lay out.
-/

namespace DocNavigation

/-- Only numbers of more than a thousand binary digits are beyond all doubles. -/
theorem Number.Binary64.log2_of_infinite (negative sign : Bool) (num : Nat)
    (h : ofRatio negative num 1 = .infinite sign) : 1023 ≤ num.log2 := by
  have hone : Nat.log2 1 = 0 := by decide
  unfold ofRatio at h
  simp only [hone] at h
  split_ifs at h with hzero hbig hfull hlarge hlarge hfull hlarge hlarge
  all_goals first | (cases h; done) | (dsimp only at hlarge; omega)

namespace TemplateError

/-- What holds of the value if there is one, and of the blame if the caller is to blame. -/
def Meets {α : Type} (Q : α → Prop) (B : Blame → Prop) : Except TemplateError α → Prop
  | .ok a => Q a
  | .error e => ∀ b, e.blame? = some b → B b

section
variable {α β : Type} {Q : α → Prop} {R : β → Prop} {B C : Blame → Prop}

theorem Meets.caught (e : TemplateError) (h : e.blame? = none) : Meets Q B (.error e) := by
  intro b hb
  rw [h] at hb
  cases hb

theorem Meets.bind (x : Except TemplateError α) (f : α → Except TemplateError β) (hx : Meets Q B x)
    (hf : ∀ a, x = .ok a → Q a → Meets R B (f a)) : Meets R B (x >>= f) := by
  cases x with
  | error e => exact hx
  | ok a => exact hf a rfl hx

theorem Meets.map (x : Except TemplateError α) (f : α → β) (hx : Meets Q B x)
    (hf : ∀ a, Q a → R (f a)) : Meets R B (x.map f) := by
  cases x with
  | error e => exact hx
  | ok a => exact hf a hx

theorem Meets.ite (c : Prop) [Decidable c] (x y : Except TemplateError α) (hx : c → Meets Q B x)
    (hy : ¬ c → Meets Q B y) : Meets Q B (if c then x else y) := by
  split
  · exact hx ‹_›
  · exact hy ‹_›

/-- A check that fails on the text alone. -/
theorem Meets.guard (c : Prop) [Decidable c] (e : TemplateError)
    (f : PUnit → Except TemplateError α) (h : e.blame? = none) (hf : Meets Q B (f ⟨⟩)) :
    Meets Q B (if c then throw e >>= f else f ⟨⟩) :=
  .ite c _ _ (fun _ => .caught e h) fun _ => hf

theorem Meets.mono (x : Except TemplateError α) (hx : Meets Q C x) (h : ∀ b, C b → B b) :
    Meets Q B x := by
  cases x with
  | error e => exact fun b hb => h b (hx b hb)
  | ok a => exact hx

theorem Meets.blameless (x : Except TemplateError α) (hx : Meets Q (fun _ => False) x) :
    Meets Q B x :=
  hx.mono x fun _ => False.elim

end

/-- The caller is not to blame for anything. -/
def Tame {α : Type} (x : Except TemplateError α) : Prop :=
  Meets (fun _ => True) (fun _ => False) x

end TemplateError

open TemplateError

namespace Spec

theorem tame_number? (cs : List Char) : Tame (number? cs) := by
  unfold number?
  simp only
  split
  · trivial
  · split
    · exact Meets.caught _ rfl
    · trivial

theorem tame_separatorOf (cs : List Char) : Tame (separatorOf cs) := by
  unfold separatorOf
  simp only
  split
  · exact Meets.caught _ rfl
  · trivial

theorem tame_precisionOf (cs : List Char) : Tame (precisionOf cs) := by
  unfold precisionOf
  split
  · refine Meets.bind _ _ (tame_number? _) fun r _ _ => ?_
    split
    · exact Meets.caught _ rfl
    · trivial
  · trivial

theorem tame_read (text kind : String) (usual : Align) : Tame (read text kind usual) := by
  unfold read
  iterate 5 split
  refine Meets.bind _ _ (tame_number? _) fun _ _ _ => ?_
  split
  refine Meets.bind _ _ (tame_separatorOf _) fun _ _ _ => ?_
  split
  refine Meets.bind _ _ (tame_precisionOf _) fun _ _ _ => ?_
  split
  -- what stands last is a code, and a separator has to suit it
  simp only [pure_bind]
  split
  · split
    · exact Meets.guard _ _ _ rfl trivial
    · trivial
  · split
    · exact Meets.guard _ _ _ rfl trivial
    · trivial
  · exact Meets.caught _ rfl

theorem tame_text (s : Spec) (value : String) : Tame (s.text value) := by
  unfold text
  extract_lets cs laidOut afterAlternate afterZero afterSign afterCode
  have hflags : ∀ u, Tame (afterSign u) := fun u =>
    Meets.guard _ _ _ rfl (Meets.guard _ _ _ rfl (Meets.guard _ _ _ rfl trivial))
  have hsign : ∀ u, Tame (afterCode u) := by
    intro u
    unfold afterCode
    split
    · exact hflags ()
    · exact Meets.caught _ rfl
    · exact Meets.caught _ rfl
  split
  · exact hsign ()
  · exact hsign ()
  · exact Meets.caught _ rfl

theorem tame_digitsOf (base n : Nat) : Tame (digitsOf base n) :=
  Meets.ite _ _ _ (fun _ => Meets.caught _ rfl) fun _ => trivial

/-- No character has such a number. -/
def Outside (n : Int) : Prop :=
  n < 0 ∨ 0x10ffff < n

/-- Some number is no character's, or is too large for a double. -/
def Overflows (n : Int) (b : Blame) : Prop :=
  b = .overflow ∧ Outside n

theorem meets_charOf (s : Spec) (n : Int) :
    Meets (fun _ => True) (Overflows n) (s.charOf n) := by
  unfold charOf
  refine Meets.guard _ _ _ rfl (Meets.guard _ _ _ rfl ?_)
  refine Meets.ite _ _ _ (fun hlarge b hb => ?_) fun _ =>
    Meets.ite _ _ _ (fun hout b hb => ?_) fun _ => trivial
  · have htwo : Number.twoTo 63 = 9223372036854775808 := rfl
    cases hb
    refine ⟨rfl, ?_⟩
    unfold Outside
    omega
  · cases hb
    exact ⟨rfl, hout⟩

theorem meets_integer (s : Spec) (n : Int) :
    Meets (fun _ => True) (Overflows n) (s.integer n) := by
  unfold integer
  refine Meets.guard _ _ _ rfl (Meets.guard _ _ _ rfl ?_)
  refine Meets.ite _ _ _ (fun _ => meets_charOf s n) fun _ => ?_
  exact Meets.bind _ _ (tame_digitsOf _ _).blameless fun _ _ _ => trivial

theorem tame_float (s : Spec) (x : Number.Binary64) : Tame (s.float x) := by
  unfold float
  split
  · trivial
  · exact Meets.ite _ _ _ (fun _ => trivial) fun _ =>
      Meets.ite _ _ _ (fun _ => trivial) fun _ => Meets.caught _ rfl

theorem meets_whole (s : Spec) (n : Int) (kind : String) :
    Meets (fun _ => True) (Overflows n) (s.whole n kind) := by
  unfold whole
  split
  · exact meets_integer s n
  · refine Meets.ite _ _ _ (fun _ => meets_integer s n) fun _ =>
      Meets.ite _ _ _ (fun _ => ?_) fun _ => Meets.caught _ rfl
    split
    · intro b hb
      cases hb
      have hlog := Number.Binary64.log2_of_infinite _ _ _ ‹_›
      refine ⟨rfl, ?_⟩
      unfold Outside
      by_contra hinside
      have hsmall : n.natAbs < 2 ^ 21 := by omega
      rcases eq_or_ne n.natAbs 0 with hzero | hzero
      · rw [hzero] at hlog
        simp at hlog
      · have hlt := (Nat.log2_lt hzero).2 hsmall
        omega
    · exact (tame_float s _).blameless

end Spec

namespace Template

theorem tame_fieldName (bracketed : Bool) (acc cs : List Char) :
    Tame (fieldName bracketed acc cs) := by
  induction cs generalizing bracketed acc with
  | nil => cases bracketed <;> trivial
  | cons c cs ih =>
    cases bracketed with
    | true => exact ih _ _
    | false =>
      exact Meets.ite _ _ _ (fun _ => Meets.caught _ rfl) fun _ =>
        Meets.ite _ _ _ (fun _ => trivial) fun _ => ih _ _

theorem tame_specText (depth : Nat) (acc cs : List Char) : Tame (specText depth acc cs) := by
  induction cs generalizing depth acc with
  | nil => exact Meets.caught _ rfl
  | cons c cs ih =>
    refine Meets.ite _ _ _ (fun _ => ih _ _) fun _ => Meets.ite _ _ _ (fun _ => ?_) fun _ => ih _ _
    cases depth with
    | zero => trivial
    | succ depth => exact ih _ _

theorem tame_field (cs : List Char) : Tame (field cs) := by
  unfold field
  refine Meets.bind _ _ (tame_fieldName _ _ _) fun ⟨name, stop, rest⟩ _ _ => ?_
  simp only
  split
  · trivial
  · exact Meets.bind _ _ (tame_specText _ _ _) fun _ _ _ => trivial
  · exact Meets.caught _ rfl
  · unfold afterConversion
    split
    · trivial
    · exact Meets.bind _ _ (tame_specText _ _ _) fun _ _ _ => trivial
    · exact Meets.bind _ _ (tame_specText _ _ _) fun _ _ _ => trivial
    · exact Meets.caught _ rfl
  · exact Meets.caught _ rfl

theorem tame_front (c : Char) (rest : List Char) : Tame (front c rest) :=
  Meets.ite _ _ _ (fun _ => trivial) fun _ => Meets.ite _ _ _ (fun _ => trivial) fun _ =>
    Meets.ite _ _ _ (fun _ => Meets.caught _ rfl) fun _ => trivial

/-- A text, or a number that no character has only if it is an argument. -/
def Given (args : List (String × Json)) : Json → Prop
  | .str _ => True
  | .int n => Spec.Outside n → ∃ name, (name, .int n) ∈ args
  | _ => False

/-- A name does not enter a value unless it says so. -/
def Enters (name : List Char) : Blame → Prop
  | .member => '.' ∈ name
  | .type => '[' ∈ name
  | .overflow => False

theorem tame_position? (cs : List Char) : Tame (position? cs) := by
  unfold position?
  refine Meets.ite _ _ _ (fun _ => ?_) fun _ => trivial
  exact (Spec.tame_number? _).map _ _ fun _ => id

/-- The character that says a step. -/
def Step.mark : Step → Char
  | .member _ => '.'
  | .index _ | .key _ => '['

def Step.blame : Step → Blame
  | .member _ => .member
  | .index _ | .key _ => .type

theorem enters_of_mark (name : List Char) (s : Step) (h : s.mark ∈ name) :
    Enters name s.blame := by
  cases s with
  | member _ | index _ | key _ => exact h

theorem meets_step (cs : List Char) :
    Meets (fun r => ∀ s rest, r = some (s, rest) → s.mark ∈ cs ∧ rest ⊆ cs) (fun _ => False)
      (step cs) := by
  have hsaid : ∀ (s : Step) (rest : List Char) (n : Nat), Meets
      (fun r => ∀ t tail, r = some (t, tail) → t.mark ∈ s.mark :: rest ∧ tail ⊆ s.mark :: rest)
      (fun _ => False) (pure (some (s, rest.drop n)) : Except TemplateError _) := by
    rintro s rest n t tail ⟨⟩
    exact ⟨List.mem_cons_self, List.Subset.trans (List.drop_subset _ _) (List.subset_cons_self _ _)⟩
  unfold step
  split
  · rintro s rest ⟨⟩
  · exact Meets.guard _ _ _ rfl (hsaid (.member _) _ _)
  · refine Meets.guard _ _ _ rfl (Meets.bind _ _ (tame_position? _) fun n _ _ => ?_)
    cases n with
    | none => exact hsaid (.key _) _ _
    | some n => exact hsaid (.index n) _ _
  · exact Meets.caught _ rfl

section
variable {args : List (String × Json)}

theorem meets_member (v : Json) (name : String) (hv : Given args v) :
    Meets (Given args) (· = .member) (member v name) := by
  have hnone : Meets (Given args) (· = Blame.member)
      (.error (.noAttribute v.kind name) : Except TemplateError Json) := by
    intro b hb
    cases hb
    rfl
  have hsmall : ∀ n : Int, 0 ≤ n → n ≤ 1 → Given args (.int n) := by
    intro n hzero hone hout
    unfold Spec.Outside at hout
    omega
  unfold member
  split
  · refine Meets.ite _ _ _ (fun _ => hv) fun _ => Meets.ite _ _ _ (fun _ => ?_) fun _ =>
      Meets.ite _ _ _ (fun _ => ?_) fun _ => hnone
    · exact hsmall 0 (by omega) (by omega)
    · exact hsmall 1 (by omega) (by omega)
  · exact hnone

theorem meets_item (v : Json) (n : Nat) (hv : Given args v) :
    Meets (Given args) (· = .type) (item v n) := by
  cases v with
  | str s =>
    simp only [item]
    split
    · trivial
    · exact Meets.caught _ rfl
  | int n =>
    intro b hb
    cases hb
    rfl
  | null | bool _ | float _ | arr _ | obj _ => exact hv.elim

theorem meets_entry (v : Json) (key : String) (hv : Given args v) :
    Meets (Given args) (· = .type) (entry v key) := by
  cases v with
  | str s | int n =>
    intro b hb
    cases hb
    rfl
  | null | bool _ | float _ | arr _ | obj _ => exact hv.elim

theorem meets_take (v : Json) (s : Step) (hv : Given args v) :
    Meets (Given args) (· = s.blame) (s.take v) := by
  cases s with
  | member name => exact meets_member v name hv
  | index n => exact meets_item v n hv
  | key name => exact meets_entry v name hv

theorem meets_walk (name : List Char) (fuel : Nat) (v : Json) (cs : List Char) (hcs : cs ⊆ name)
    (hv : Given args v) : Meets (Given args) (Enters name) (walk fuel v cs) := by
  induction fuel generalizing v cs with
  | zero => exact hv
  | succ fuel ih =>
    unfold walk
    refine Meets.bind _ _ (meets_step cs).blameless fun r _ hsaid => ?_
    cases r with
    | none => exact hv
    | some r =>
      obtain ⟨s, rest⟩ := r
      obtain ⟨hmark, hrest⟩ := hsaid s rest rfl
      refine Meets.bind _ _ ((meets_take v s hv).mono _ ?_)
        fun w _ hw => ih w rest (List.Subset.trans hrest hcs) hw
      rintro b rfl
      exact enters_of_mark name s (hcs hmark)

variable (hargs : ∀ p ∈ args, (∃ s, p.2 = .str s) ∨ ∃ n, p.2 = .int n)
include hargs

theorem meets_argument (name : List Char) :
    Meets (Given args) (fun _ => False) (argument args name) := by
  unfold argument
  refine Meets.guard _ _ _ rfl (Meets.bind _ _ (tame_position? _) fun n _ _ => ?_)
  cases n with
  | some n => exact Meets.caught _ rfl
  | none =>
    simp only
    split
    · rename_i v hfound
      obtain ⟨⟨key, w⟩, hfirst, hw⟩ := Option.map_eq_some_iff.1 hfound
      have hmem := List.mem_of_find?_eq_some hfirst
      simp only at hw
      subst hw
      rcases hargs _ hmem with ⟨s, hs⟩ | ⟨n, hn⟩
      · simp only at hs
        subst hs
        trivial
      · simp only at hn
        subst hn
        exact fun _ => ⟨key, hmem⟩
    · exact Meets.caught _ rfl

theorem meets_value (name : List Char) : Meets (Given args) (Enters name) (value args name) := by
  unfold value
  refine Meets.bind _ _ (meets_argument hargs _).blameless fun v _ hv =>
    meets_walk name _ v _ (List.drop_subset _ _) hv

omit hargs

theorem tame_written (v : Json) (text : String) : Tame (written v text) := by
  unfold written
  split
  · exact (Spec.tame_digitsOf _ _).map _ _ fun _ => id
  · trivial

theorem meets_convert (conversion : Option Char) (v : Json) (hv : Given args v) :
    Meets (Given args) (fun _ => False) (convert conversion v) := by
  have hshown : ∀ text, Meets (Given args) (fun _ => False) ((written v text).map Json.str) :=
    fun text => (tame_written v text).map _ _ fun _ => id
  unfold convert
  split
  · exact hv
  · exact hshown _
  · exact hshown _
  · exact hshown _
  · exact Meets.caught _ rfl

/-- Without a specification no number overflows. -/
theorem meets_layOut (v : Json) (spec : String) (hv : Given args v) :
    Meets (fun _ => True)
      (fun b => b = .overflow ∧ spec ≠ "" ∧ ∃ name n, (name, .int n) ∈ args ∧ Spec.Outside n)
      (layOut v spec) := by
  unfold layOut
  refine Meets.ite _ _ _ (fun _ => ?_) fun hspec => ?_
  · exact (tame_written v _).blameless
  cases v with
  | str s =>
    exact Meets.bind _ _ (Spec.tame_read _ _ _).blameless fun r _ _ =>
      (Spec.tame_text r s).blameless
  | int n =>
    refine Meets.bind _ _ (Spec.tame_read _ _ _).blameless fun r _ _ =>
      (Spec.meets_whole r n _).mono _ ?_
    rintro b ⟨hb, hout⟩
    obtain ⟨name, hmem⟩ := hv hout
    exact ⟨hb, hspec, name, n, hmem, hout⟩
  | null | bool _ | float _ | arr _ | obj _ => exact hv.elim

end

/-- The fields of a template, with those in the specifications of others. -/
inductive HasField : List Char → Field → Prop
  | past {c d : Char} {rest : List Char} {f : Field} (hfront : front c rest = .ok (.plain d))
    (h : HasField (if c = '\x7b' ∨ c = '\x7d' then rest.tail else rest) f) :
    HasField (c :: rest) f
  | here {c : Char} {rest after : List Char} {f : Field} (hfront : front c rest = .ok .opening)
    (hfield : field rest = .ok (f, after)) : HasField (c :: rest) f
  | within {c : Char} {rest after : List Char} {f g : Field}
    (hfront : front c rest = .ok .opening) (hfield : field rest = .ok (f, after))
    (h : HasField f.spec g) : HasField (c :: rest) g
  | after {c : Char} {rest after : List Char} {f g : Field}
    (hfront : front c rest = .ok .opening) (hfield : field rest = .ok (f, after))
    (h : HasField after g) : HasField (c :: rest) g

/-- What the fields and the arguments have in them when the caller is to blame. -/
def Cause (args : List (String × Json)) (fields : Field → Prop) : Blame → Prop
  | .member => ∃ f, fields f ∧ '.' ∈ f.name
  | .type => ∃ f, fields f ∧ '[' ∈ f.name
  | .overflow => (∃ f, fields f ∧ f.spec ≠ []) ∧
    ∃ name n, (name, .int n) ∈ args ∧ Spec.Outside n

theorem Cause.mono (args : List (String × Json)) (F G : Field → Prop) (b : Blame)
    (hFG : ∀ f, F f → G f) (h : Cause args F b) : Cause args G b := by
  cases b with
  | member | type =>
    obtain ⟨f, hf, hname⟩ := h
    exact ⟨f, hFG f hf, hname⟩
  | overflow =>
    obtain ⟨⟨f, hf, hspec⟩, hout⟩ := h
    exact ⟨⟨f, hFG f hf, hspec⟩, hout⟩

theorem cause_of_enters (args : List (String × Json)) (F : Field → Prop) (f : Field) (hf : F f)
    (b : Blame) (h : Enters f.name b) : Cause args F b := by
  cases b with
  | member | type => exact ⟨f, hf, h⟩
  | overflow => exact h.elim

/-- The caller is blamed for nothing but what fields of the template ask for. -/
theorem meets_renderFrom (args : List (String × Json))
    (hargs : ∀ p ∈ args, (∃ s, p.2 = .str s) ∨ ∃ n, p.2 = .int n) (depth fuel : Nat)
    (cs acc : List Char) :
    Meets (fun _ => True) (Cause args (HasField cs)) (renderFrom args depth fuel cs acc) := by
  induction fuel generalizing depth cs acc with
  | zero => trivial
  | succ fuel ih =>
    cases cs with
    | nil => trivial
    | cons c rest =>
      unfold renderFrom
      refine Meets.bind _ _ (tame_front c rest).blameless fun r hfront _ => ?_
      cases r with
      | plain d =>
        exact (ih depth _ _).mono _ fun b =>
          Cause.mono args _ _ b fun f => HasField.past hfront
      | opening =>
        refine Meets.bind _ _ (tame_field rest).blameless fun r hfield _ => ?_
        obtain ⟨f, after⟩ := r
        have hhere : HasField (c :: rest) f := .here hfront hfield
        refine Meets.bind _ _ ((meets_value hargs f.name).mono _
          (cause_of_enters args _ f hhere)) fun v _ hv => ?_
        refine Meets.bind _ _ (meets_convert f.conversion v hv).blameless fun w _ hw => ?_
        have hlaid : ∀ depth spec, (f.spec = [] → spec = []) →
            Meets (fun _ => True) (Cause args (HasField (c :: rest))) (do
              let text ← layOut w (String.ofList spec)
              renderFrom args depth fuel after (text.toList.reverse ++ acc)) := by
          intro depth spec hempty
          refine Meets.bind _ _ ((meets_layOut w _ hw).mono _ ?_) fun text _ _ =>
            (ih depth _ _).mono _ fun b =>
              Cause.mono args _ _ b fun g => HasField.after hfront hfield
          rintro b ⟨rfl, hspec, hout⟩
          refine ⟨⟨f, hhere, fun hnone => hspec ?_⟩, hout⟩
          rw [hempty hnone]
        split
        · rename_i hbrace
          split
          · exact Meets.caught _ rfl
          · refine Meets.bind _ _ ((ih _ f.spec []).mono _ fun b =>
              Cause.mono args _ _ b fun g => HasField.within hfront hfield)
              fun spec _ _ => hlaid _ spec fun hnone => ?_
            rw [hnone] at hbrace
            cases hbrace
        · exact hlaid _ _ id

end Template

end DocNavigation
