import DocNavigation.Template.Render
import Mathlib.Data.List.TakeWhile

/-!
Templates made of literal text and of arguments by their names. Such a template is rendered as the
text with the texts of the arguments in their places.
-/

namespace DocNavigation

namespace Template

/-- A part of a template: characters that stand for themselves, or an argument by its name. -/
inductive Piece where
  | text (cs : List Char)
  | value (name : String) (v : Json)

/-- A character as a template has it: braces are doubled. -/
def literal (c : Char) : List Char :=
  if c = '\x7b' ∨ c = '\x7d' then [c, c] else [c]

namespace Piece

def spelled : Piece → List Char
  | .text cs => cs.flatMap literal
  | .value name _ => '\x7b' :: name.toList ++ ['\x7d']

def shown : Piece → List Char
  | .text cs => cs
  | .value _ v => v.plain.toList

end Piece

/-- A name that neither ends early nor enters a value, and is no number. -/
structure IsWord (cs : List Char) : Prop where
  plain : ∀ c ∈ cs, c ∉ ['\x7b', '\x7d', ':', '!', '.', '[']
  noNumber : cs.all Text.isDecimal = false

/-- The argument is there, and it is no number with too many digits. -/
def Piece.Fits (args : List (String × Json)) : Piece → Prop
  | .text _ => True
  | .value name v => IsWord name.toList ∧ Json.getKey? args name = some v ∧
    ∀ n, v = .int n → (Nat.toDigits 10 n.natAbs).length ≤ Number.maxDigits

theorem IsWord.ne_nil (cs : List Char) (h : IsWord cs) : cs ≠ [] := by
  rintro rfl
  cases h.noNumber

theorem fieldName_word (name acc rest : List Char)
    (h : ∀ c ∈ name, c ∉ ['\x7b', '\x7d', ':', '!', '.', '[']) :
    fieldName false acc (name ++ '\x7d' :: rest) = .ok (acc.reverse ++ name, some '\x7d', rest) := by
  induction name generalizing acc with
  | nil => simp [fieldName]
  | cons c name ih =>
    rw [List.forall_mem_cons] at h
    obtain ⟨hc, h⟩ := h
    simp only [List.mem_cons, List.not_mem_nil, not_or, or_false] at hc
    have hnext := ih (c :: acc) h
    rw [List.reverse_cons, List.append_assoc] at hnext
    simp [fieldName, hc, hnext]

theorem field_word (name : String) (rest : List Char) (h : IsWord name.toList) :
    field (name.toList ++ '\x7d' :: rest) = .ok (⟨name.toList, none, []⟩, rest) := by
  rw [field, fieldName_word _ _ _ h.plain]
  rfl

theorem value_word (args : List (String × Json)) (name : String) (v : Json)
    (h : IsWord name.toList) (hv : Json.getKey? args name = some v) :
    value args name.toList = .ok v := by
  have hfirst : (name.toList.takeWhile fun c => c ≠ '.' ∧ c ≠ '[') = name.toList := by
    rw [List.takeWhile_eq_self_iff]
    intro c hc
    have hplain := h.plain c hc
    simp only [List.mem_cons, List.not_mem_nil, not_or, or_false] at hplain
    simp [hplain]
  have hposition : position? name.toList = .ok none := by
    rw [position?, h.noNumber]
    rfl
  have hempty : name.toList.isEmpty = false := by simpa using h.ne_nil
  have hargument : argument args name.toList = .ok v := by
    rw [argument, hempty, hposition]
    simp only [String.ofList_toList, Bool.false_eq_true, if_false]
    rw [hv]
    rfl
  rw [value, hfirst, hargument, List.drop_length]
  rfl

theorem front_word (name : String) (rest : List Char) (h : IsWord name.toList) :
    front '\x7b' (name.toList ++ '\x7d' :: rest) = .ok .opening := by
  obtain ⟨c, cs, hname⟩ := List.exists_cons_of_ne_nil h.ne_nil
  have hc := h.plain c (hname ▸ List.mem_cons_self)
  simp only [List.mem_cons, List.not_mem_nil, not_or, or_false] at hc
  rw [hname]
  simp [front, hc]

theorem written_short (v : Json) (text : String)
    (h : ∀ n, v = .int n → (Nat.toDigits 10 n.natAbs).length ≤ Number.maxDigits) :
    written v text = .ok text := by
  unfold written
  split
  · next n =>
    rw [Spec.digitsOf, if_neg (by simpa using h n rfl)]
    rfl
  · rfl

section
variable (args : List (String × Json)) (depth : Nat)

/-- What is spelled is rendered as it is to be shown, whatever follows. -/
def Renders (spelled shown : List Char) : Prop :=
  ∃ steps ≤ spelled.length, ∀ fuel rest acc, renderFrom args depth (fuel + steps) (spelled ++ rest) acc =
    renderFrom args depth fuel rest (shown.reverse ++ acc)

theorem Renders.append (s t s' t' : List Char) (hs : Renders args depth s s')
    (ht : Renders args depth t t') : Renders args depth (s ++ t) (s' ++ t') := by
  obtain ⟨n, hn, hs⟩ := hs
  obtain ⟨m, hm, ht⟩ := ht
  refine ⟨m + n, by rw [List.length_append]; omega, fun fuel rest acc => ?_⟩
  rw [List.append_assoc, ← Nat.add_assoc, hs, ht, List.reverse_append, List.append_assoc]

theorem Renders.flatMap {α : Type} (f g : α → List Char) (as : List α)
    (h : ∀ a ∈ as, Renders args depth (f a) (g a)) :
    Renders args depth (as.flatMap f) (as.flatMap g) := by
  induction as with
  | nil => exact ⟨0, Nat.le_refl _, fun _ _ _ => rfl⟩
  | cons a as ih =>
    rw [List.forall_mem_cons] at h
    exact h.1.append args depth _ _ _ _ (ih h.2)

theorem renders_literal (c : Char) : Renders args depth (literal c) [c] := by
  by_cases hbrace : c = '\x7b' ∨ c = '\x7d'
  · refine ⟨1, by simp [literal, hbrace], fun fuel rest acc => ?_⟩
    have hfront : front c (c :: rest) = .ok (.plain c) := by
      unfold front
      split
      · rfl
      · exact if_pos rfl
    rw [literal, if_pos hbrace]
    simp only [List.cons_append, List.nil_append, renderFrom, hfront, if_pos hbrace, List.tail_cons]
    rfl
  · refine ⟨1, by simp [literal, hbrace], fun fuel rest acc => ?_⟩
    have hfront : front c rest = .ok (.plain c) := if_pos (not_or.mp hbrace)
    rw [literal, if_neg hbrace]
    simp only [List.cons_append, List.nil_append, renderFrom, hfront, if_neg hbrace]
    rfl

theorem renders_value (name : String) (v : Json) (h : (Piece.value name v).Fits args) :
    Renders args depth (Piece.value name v).spelled (Piece.value name v).shown := by
  obtain ⟨hword, hv, hshort⟩ := h
  have hlaid : layOut v (String.ofList []) = .ok v.plain := by
    unfold layOut
    exact (if_pos rfl).trans (by rw [written_short v _ hshort])
  refine ⟨1, by simp [Piece.spelled], fun fuel rest acc => ?_⟩
  have hspelled : (Piece.value name v).spelled ++ rest =
      '\x7b' :: (name.toList ++ '\x7d' :: rest) := by simp [Piece.spelled]
  rw [hspelled, renderFrom, front_word name rest hword]
  simp only [bind, Except.bind, field_word name rest hword, value_word args name v hword hv, convert]
  rw [if_neg (by simp)]
  simp only [pure, Except.pure, hlaid]
  rfl

theorem renders_piece (p : Piece) (h : p.Fits args) : Renders args depth p.spelled p.shown := by
  cases p with
  | text cs =>
    have hcs := Renders.flatMap args depth literal (fun c => [c]) cs fun c _ =>
      renders_literal args depth c
    rwa [List.flatMap_singleton'] at hcs
  | value name v => exact renders_value args depth name v h

/-- A template of such parts is rendered as what they show. -/
theorem render_pieces (ps : List Piece) (h : ∀ p ∈ ps, p.Fits args) :
    render args (String.ofList (ps.flatMap Piece.spelled)) =
      .ok (String.ofList (ps.flatMap Piece.shown)) := by
  obtain ⟨steps, hsteps, hrun⟩ := Renders.flatMap args maxDepth Piece.spelled Piece.shown ps
    fun p hp => renders_piece args maxDepth p (h p hp)
  obtain ⟨fuel, hfuel⟩ := Nat.exists_eq_add_of_le (Nat.le_succ_of_le hsteps)
  have hrun := hrun fuel [] []
  rw [Nat.add_comm, ← hfuel, List.append_nil, List.append_nil] at hrun
  rw [render, String.length_ofList, String.toList_ofList, hrun]
  cases fuel <;> simp [renderFrom, Except.map]

end

end Template

end DocNavigation
