import DocNavigation.Pattern.Glob
import Mathlib.Data.List.Basic

/-!
What stands in the brackets of a glob: characters and ranges. The text that a pattern has for them
spells the ranges that hold a character, and nothing else.
-/

namespace DocNavigation.Pattern.Glob

inductive Span where
  | one (c : Char)
  | range (lo hi : Char)
deriving DecidableEq, Repr

namespace Span

def contains (d : Char) : Span → Bool
  | .one c => d = c
  | .range lo hi => lo ≤ d && d ≤ hi

/-- A range whose first end is above the second has no characters. -/
def isFull : Span → Bool
  | .one _ => true
  | .range lo hi => !(hi < lo)

end Span

/-- The characters and ranges of a text. A hyphen makes a range of the characters around it, which
are then used up; at either end of the text it stands for itself. -/
def spans : List Char → List Span
  | lo :: '-' :: hi :: cs => .range lo hi :: spans cs
  | c :: cs => .one c :: spans cs
  | [] => []

structure Bracket where
  negated : Bool
  spans : List Span
deriving DecidableEq, Repr

/-- An exclamation mark in front of all ranges negates. If it is the end of a range, the hyphen and
the other end stand for themselves. -/
def Bracket.ofSpans : List Span → Bracket
  | .one '!' :: ss => ⟨true, ss⟩
  | .range '!' hi :: ss => ⟨true, .one '-' :: .one hi :: ss⟩
  | ss => ⟨false, ss⟩

/-- An exclamation mark in front negates. So does one that comes to the front because the ranges
before it have no characters. -/
def Bracket.ofText : List Char → Bracket
  | '!' :: cs => ⟨true, (Glob.spans cs).filter Span.isFull⟩
  | cs => .ofSpans ((Glob.spans cs).filter Span.isFull)

def Bracket.accepts (b : Bracket) (c : Char) : Bool :=
  b.spans.any (·.contains c) != b.negated

/-- The characters that a pattern escapes within brackets. -/
def specials : List Char := ['\\', '-', '&', '~', '|']

def memberText (c : Char) : List Char :=
  if c ∈ specials then ['\\', c] else [c]

def Span.text : Span → List Char
  | .one c => memberText c
  | .range lo hi => memberText lo ++ '-' :: memberText hi

/-- Puts a text in front of the first part. -/
def prepend (text : List Char) : List (List Char) → List (List Char)
  | [] => [text]
  | part :: parts => (text ++ part) :: parts

theorem prepend_prepend (a b : List Char) (parts : List (List Char)) :
    prepend a (prepend b parts) = prepend (a ++ b) parts := by
  cases parts <;> simp [prepend]

/-- The parts between the hyphens that make ranges. -/
def partsOf : List Span → List (List Char)
  | [] => [[]]
  | .one c :: ss => prepend [c] (partsOf ss)
  | .range lo hi :: ss => [lo] :: prepend [hi] (partsOf ss)

theorem partsOf_ne_nil (ss : List Span) : partsOf ss ≠ [] := by
  have hprepend : ∀ text parts, prepend text parts ≠ [] := by
    intro text parts
    cases parts <;> simp [prepend]
  cases ss with
  | nil => simp [partsOf]
  | cons s ss =>
    cases s with
    | one c => exact hprepend _ _
    | range lo hi => simp [partsOf]

section
variable (cs part : List Char)

theorem rangeParts_ne_nil (skip : Nat) : rangeParts cs skip part ≠ [] := by
  induction cs generalizing skip part with
  | nil => cases skip <;> simp [rangeParts]
  | cons c cs ih =>
    cases skip with
    | zero =>
      rw [rangeParts]
      split
      case isTrue => simp
      case isFalse => exact ih _ _
    | succ skip => exact ih _ _

/-- A first part that has begun stays as long as it is. -/
theorem head_rangeParts (skip : Nat) (first : List Char) (parts : List (List Char))
    (hpart : part ≠ []) (h : rangeParts cs skip part = first :: parts) : first ≠ [] := by
  induction cs generalizing skip part with
  | nil =>
    have hfirst : first = part.reverse := by cases skip <;> cases h <;> rfl
    simpa [hfirst] using hpart
  | cons c cs ih =>
    cases skip with
    | zero =>
      rw [rangeParts] at h
      split at h
      case isTrue =>
        cases h
        simpa using hpart
      case isFalse => exact ih (c :: part) 0 (by simp) h
    | succ skip => exact ih (c :: part) skip (by simp) h

/-- The parts of a text are those of its ranges, with the part that has begun in front. -/
theorem joinLast_rangeParts :
    joinLast (rangeParts cs 1 part) = prepend part.reverse (partsOf (spans cs)) := by
  induction cs using spans.induct generalizing part with
  | case1 lo hi cs ih =>
    obtain ⟨next, parts, hnext⟩ := List.exists_cons_of_ne_nil (rangeParts_ne_nil cs [hi] 1)
    have hfull := head_rangeParts cs [hi] 1 next parts (by simp) hnext
    have hcut : rangeParts (lo :: '-' :: hi :: cs) 1 part =
        (lo :: part).reverse :: next :: parts := by
      simp [rangeParts, ← hnext]
    have hjoin : ∀ first, joinLast (first :: next :: parts) = first :: joinLast (next :: parts) := by
      intro first
      rw [joinLast]
      simp [hfull]
    rw [hcut, hjoin, ← hnext, ih, spans, partsOf, prepend, List.reverse_cons]
    rfl
  | case2 c cs hcs ih =>
    have hspans : spans (c :: cs) = .one c :: spans cs := by
      rw [spans]
      exact hcs
    rw [hspans, partsOf, prepend_prepend]
    cases cs with
    | nil => simp [rangeParts, joinLast, spans, partsOf, prepend]
    | cons d cs =>
      by_cases hd : d = '-'
      · subst hd
        cases cs with
        | nil => simp [rangeParts, joinLast, spans, partsOf, prepend]
        | cons hi cs => exact absurd rfl (hcs hi cs)
      -- the first character counts towards the next part just as the one before it did
      · have hnext := ih (c :: part)
        rw [List.reverse_cons] at hnext
        rw [← hnext]
        simp [rangeParts, hd]
  | case3 => simp [rangeParts, joinLast, spans, partsOf, prepend]

end

/-- One step from the last part to the first. -/
def dropEmpty (part : List Char) (acc : List (List Char)) : List (List Char) :=
  match acc, part.getLast?, (acc.head?.bind (·.head?)) with
  | next :: rest, some hi, some lo =>
    if lo < hi then (part.dropLast ++ next.drop 1) :: rest else part :: acc
  | _, _, _ => part :: acc

theorem dropEmptyRanges_cons (part : List Char) (parts : List (List Char)) :
    dropEmptyRanges (part :: parts) = dropEmpty part (dropEmptyRanges parts) := rfl

/-- What stands in front of the first part has no influence, once that part has begun. -/
theorem dropEmpty_append (text part : List Char) (acc : List (List Char))
    (h : part = [] → acc = []) : dropEmpty (text ++ part) acc = prepend text (dropEmpty part acc) := by
  cases acc with
  | nil => simp [dropEmpty, prepend]
  | cons next rest =>
    have hpart : part ≠ [] := fun hnil => absurd (h hnil) (by simp)
    have hlast : (text ++ part).getLast? = part.getLast? := by
      rw [List.getLast?_append, Option.or_of_isSome (by simpa using hpart)]
    have hfront : (text ++ part).dropLast = text ++ part.dropLast :=
      List.dropLast_append_of_ne_nil hpart
    unfold dropEmpty
    rw [hlast, hfront]
    split
    case h_1 => split <;> simp [prepend]
    case h_2 => simp [prepend]

/-- A first part of ranges is only empty if there is no other part. -/
theorem partsOf_begins (ss : List Span) (parts : List (List Char)) (h : partsOf ss = [] :: parts) :
    ss = [] := by
  cases ss with
  | nil => rfl
  | cons s ss =>
    cases s with
    | one c => cases hparts : partsOf ss <;> simp [partsOf, hparts, prepend] at h
    | range lo hi => simp [partsOf] at h

theorem dropEmptyRanges_prepend (text : List Char) (ss : List Span) :
    dropEmptyRanges (prepend text (partsOf ss)) =
      prepend text (dropEmptyRanges (partsOf ss)) := by
  cases hparts : partsOf ss with
  | nil => simp [prepend, dropEmptyRanges]
  | cons part parts =>
    rw [prepend, dropEmptyRanges_cons, dropEmptyRanges_cons]
    apply dropEmpty_append
    rintro rfl
    rw [partsOf_begins ss parts hparts, partsOf] at hparts
    cases hparts
    rfl

/-- Ranges without characters leave the parts. -/
theorem dropEmptyRanges_partsOf (ss : List Span) :
    dropEmptyRanges (partsOf ss) = partsOf (ss.filter Span.isFull) := by
  induction ss with
  | nil => rfl
  | cons s ss ih =>
    cases s with
    | one c => rw [partsOf, dropEmptyRanges_prepend, ih]; rfl
    | range lo hi =>
      rw [partsOf, dropEmptyRanges_cons, dropEmptyRanges_prepend, ih]
      cases hparts : partsOf (ss.filter Span.isFull) with
      | nil => exact absurd hparts (partsOf_ne_nil _)
      | cons part parts =>
        by_cases hempty : hi < lo
        · simp [dropEmpty, prepend, hempty, Span.isFull, hparts]
        · simp [dropEmpty, prepend, hempty, Span.isFull, hparts, partsOf]

theorem intercalate_prepend (text : List Char) (parts : List (List Char)) (h : parts ≠ []) :
    List.intercalate ['-'] ((prepend text parts).map (escapedIn specials)) =
      escapedIn specials text ++ List.intercalate ['-'] (parts.map (escapedIn specials)) := by
  cases parts with
  | nil => exact absurd rfl h
  | cons part parts =>
    cases parts <;> simp [prepend, escapedIn, List.intercalate]

/-- The parts with hyphens between them spell the ranges one after another. -/
theorem intercalate_partsOf (ss : List Span) :
    List.intercalate ['-'] ((partsOf ss).map (escapedIn specials)) = ss.flatMap Span.text := by
  have hmember : ∀ c, escapedIn specials [c] = memberText c := by simp [escapedIn, memberText]
  induction ss with
  | nil => rfl
  | cons s ss ih =>
    have hfull := partsOf_ne_nil ss
    cases s with
    | one c =>
      rw [partsOf, intercalate_prepend [c] _ hfull, ih, hmember, List.flatMap_cons, Span.text]
    | range lo hi =>
      have hrest := intercalate_prepend [hi] _ hfull
      rw [ih, hmember] at hrest
      rw [partsOf, List.flatMap_cons, Span.text, List.append_assoc, List.cons_append, ← hrest,
        ← hmember]
      cases hparts : partsOf ss with
      | nil => exact absurd hparts hfull
      | cons part parts => simp [prepend, List.intercalate]

/-- The text for what is left of the ranges. -/
def textOf (cs : List Char) : List Char :=
  ((spans cs).filter Span.isFull).flatMap Span.text

theorem spans_of_noHyphen (cs : List Char) (h : '-' ∉ cs) : spans cs = cs.map .one := by
  induction cs using spans.induct with
  | case1 lo hi cs ih => simp at h
  | case2 c cs hcs ih =>
    rw [spans, ih (List.not_mem_of_not_mem_cons h), List.map_cons]
    exact hcs
  | case3 => rfl

theorem textOf_noHyphen (cs : List Char) (h : '-' ∉ cs) :
    textOf cs = escapedIn ['\\', '&', '~', '|'] cs := by
  have hfull : (cs.map Span.one).filter Span.isFull = cs.map .one :=
    List.filter_eq_self.mpr (by simp [Span.isFull])
  rw [textOf, spans_of_noHyphen cs h, hfull, List.flatMap_map, escapedIn]
  refine List.flatMap_congr fun c hc => ?_
  have hne : c ≠ '-' := fun hhyphen => h (hhyphen ▸ hc)
  simp [Span.text, memberText, specials, hne]

theorem intercalate_textOf (text cs : List Char) :
    List.intercalate ['-'] ((dropEmptyRanges (joinLast (rangeParts cs 1 text))).map
      (escapedIn specials)) = escapedIn specials text.reverse ++ textOf cs := by
  rw [joinLast_rangeParts, dropEmptyRanges_prepend, dropEmptyRanges_partsOf,
    intercalate_prepend _ _ (partsOf_ne_nil _), intercalate_partsOf, textOf]

/-- What a pattern has between its brackets, but for the signs at its front. -/
theorem setText_eq (cs : List Char) (h : cs.head? ≠ some '!') : setText cs = textOf cs := by
  unfold setText
  split
  case isTrue =>
    exact intercalate_textOf [] cs
  case isFalse hhyphen => exact (textOf_noHyphen cs hhyphen).symm

theorem setText_negated (cs : List Char) : setText ('!' :: cs) = '!' :: textOf cs := by
  unfold setText
  split
  case isTrue => exact intercalate_textOf ['!'] cs
  case isFalse hhyphen =>
    rw [textOf_noHyphen cs (List.not_mem_of_not_mem_cons hhyphen)]
    simp [escapedIn]

end DocNavigation.Pattern.Glob
