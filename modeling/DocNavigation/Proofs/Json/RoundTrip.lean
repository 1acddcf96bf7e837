import DocNavigation.Proofs.Json.Keys
import DocNavigation.Proofs.Json.Quoted
import DocNavigation.Proofs.Text.Lines
import Mathlib.Algebra.Group.Nat.Defs
import Mathlib.Data.List.TakeDrop

/-!
Reading what was written. A value without doubles, without numerals beyond the limit and without
repeated keys is restored from its compact text, which is a single line.
-/

namespace DocNavigation.Json

/-- What a single value needs for its text to be read back. -/
def Restorable : Json → Prop
  | .float _ => False
  | .int n => (Nat.toDigits 10 n.natAbs).length ≤ Number.maxDigits
  | .obj fields => (fields.map (·.1)).Nodup
  | _ => True

/-- Text that does not continue a numeral. -/
def EndsNumeral (rest : List Char) : Prop :=
  ∀ c ∈ rest.head?, isDigit c = false ∧ c ≠ '.' ∧ c ≠ 'e' ∧ c ≠ 'E'

theorem isDigit_toDigits (n : Nat) : ∀ c ∈ Nat.toDigits 10 n, isDigit c = true := by
  intro c hc
  have h := Nat.isDigit_of_mem_toDigits (by decide) (by decide) hc
  simpa [isDigit, Char.isDigit, Char.le_def] using h

theorem digitsValue_toDigits (n : Nat) : digitsValue (Nat.toDigits 10 n) = n :=
  Nat.ofDigitChars_ten_toDigits

theorem length_toDigits_pow (n : Nat) (hn : 0 < n) : (Nat.toDigits 10 (10 ^ n)).length = n + 1 := by
  apply Nat.le_antisymm
  · rw [Nat.length_toDigits_le_iff (by decide) (Nat.succ_pos n)]
    exact Nat.pow_lt_pow_succ (by decide)
  · rw [Nat.succ_le_iff, ← Nat.not_le, Nat.length_toDigits_le_iff (by decide) hn]
    exact Nat.lt_irrefl _

theorem toDigits_head_ne_zero (n : Nat) (hn : 0 < n) : (Nat.toDigits 10 n).head? ≠ some '0' := by
  induction n using Nat.strongRecOn with
  | _ n ih =>
    rw [Nat.toDigits_eq_if (by decide)]
    split
    case isTrue h =>
      have hall : ∀ i : Fin 10, 0 < i.val → [Nat.digitChar i.val].head? ≠ some '0' := by decide
      exact hall ⟨n, h⟩ hn
    case isFalse h =>
      have hne : Nat.toDigits 10 (n / 10) ≠ [] := Nat.toDigits_ne_nil
      rw [List.head?_append, List.head?_eq_some_head hne]
      rw [Option.some_or, ← List.head?_eq_some_head hne]
      exact ih (n / 10) (by omega) (by omega)

theorem span_digits (ds rest : List Char) (hd : ∀ c ∈ ds, isDigit c = true)
    (hr : EndsNumeral rest) : (ds ++ rest).span isDigit = (ds, rest) := by
  have htake : rest.takeWhile isDigit = [] ∧ rest.dropWhile isDigit = rest := by
    cases rest with
    | nil => exact ⟨rfl, rfl⟩
    | cons c rest => simp [(hr c rfl).1]
  rw [List.span_eq_takeWhile_dropWhile, List.takeWhile_append_of_pos hd,
    List.dropWhile_append_of_pos hd, htake.1, htake.2, List.append_nil]

theorem wholePart?_toDigits (n : Nat) (rest : List Char) (hr : EndsNumeral rest) :
    wholePart? (Nat.toDigits 10 n ++ rest) = some (Nat.toDigits 10 n, rest) := by
  by_cases hn : n = 0
  · subst hn
    rw [Nat.toDigits_zero]
    rfl
  · have hall := isDigit_toDigits n
    have hspan := span_digits _ _ hall hr
    have hhead := toDigits_head_ne_zero n (by omega)
    have hne : Nat.toDigits 10 n ≠ [] := Nat.toDigits_ne_nil
    cases hds : Nat.toDigits 10 n with
    | nil => exact absurd hds hne
    | cons c ds =>
      rw [hds] at hall hspan hhead
      have hzero : c ≠ '0' := by simpa using hhead
      have hdigit : isDigit c = true := hall c (List.mem_cons_self ..)
      simp only [List.cons_append] at hspan ⊢
      simp only [wholePart?, hdigit, hspan, if_true]

theorem fractionPart_of_ends (rest : List Char) (hr : EndsNumeral rest) :
    fractionPart rest = ([], rest) := by
  cases rest with
  | nil => rfl
  | cons c rest => simp [fractionPart, (hr c rfl).2.1]

theorem exponentPart?_of_ends (rest : List Char) (hr : EndsNumeral rest) :
    exponentPart? rest = none := by
  cases rest with
  | nil => rfl
  | cons c rest => simp [exponentPart?, (hr c rfl).2.2.1, (hr c rfl).2.2.2]

/-- An integer is read if it has no more digits than are converted. -/
def intReading (n : Int) (rest : List Char) : Reading Json :=
  if Number.maxDigits < (Nat.toDigits 10 n.natAbs).length then
    .error (.hugeInteger (Nat.toDigits 10 n.natAbs).length)
  else .ok (.int n, rest)

theorem readMagnitude_toDigits (negative : Bool) (left n : Nat) (rest : List Char)
    (hr : EndsNumeral rest) :
    readMagnitude negative left (Nat.toDigits 10 n ++ rest) =
      intReading (if negative then -(n : Int) else n) rest := by
  have hsame : (if negative then -(n : Int) else n).natAbs = n := by split <;> simp
  simp [readMagnitude, wholePart?_toDigits n rest hr, fractionPart_of_ends rest hr,
    exponentPart?_of_ends rest hr, digitsValue_toDigits, intReading, hsame]

theorem readConstant?_digit (c : Char) (rest : List Char) (hc : isDigit c = true) :
    readConstant? (c :: rest) = none ∧ readConstant? ('-' :: c :: rest) = none := by
  have h : ∀ d : Char, isDigit d = false → d ≠ c := by
    rintro d hd rfl
    rw [hd] at hc
    exact Bool.noConfusion hc
  simp [readConstant?, constants, h 'n' (by decide), h 't' (by decide), h 'f' (by decide),
    h 'N' (by decide), h 'I' (by decide), h '-' (by decide)]

theorem toList_int (n : Int) :
    (toString n).toList =
      if n < 0 then '-' :: Nat.toDigits 10 n.natAbs else Nat.toDigits 10 n.natAbs := by
  rw [Int.toString_eq_repr, Int.repr_eq_if]
  split
  case isTrue h =>
    rw [if_neg (by omega), Nat.toList_repr, show n.toNat = n.natAbs by omega]
  case isFalse h =>
    rw [if_pos (by omega), String.toList_append, Nat.toList_repr, show (-n).toNat = n.natAbs by omega]
    rfl

theorem toList_int_head (n : Int) :
    ∃ c cs, (toString n).toList = c :: cs ∧ (c = '-' ∨ isDigit c = true) := by
  have hall := isDigit_toDigits n.natAbs
  rw [toList_int]
  split
  case isTrue => exact ⟨'-', _, rfl, .inl rfl⟩
  case isFalse =>
    obtain ⟨c, ds, hds⟩ := List.exists_cons_of_ne_nil (Nat.toDigits_ne_nil (n := n.natAbs) (b := 10))
    exact ⟨c, ds, hds, .inr (hall c (hds ▸ List.mem_cons_self ..))⟩

theorem readNumber_unsigned (c : Char) (rest : List Char) (hc : c ≠ '-') :
    readNumber (c :: rest) = readMagnitude false (c :: rest).length (c :: rest) := by
  unfold readNumber
  split
  case h_1 heq => exact absurd (List.cons.inj heq).1 hc
  case h_2 => rfl

theorem readScalar_int (n : Int) (rest : List Char) (hr : EndsNumeral rest) :
    readScalar ((toString n).toList ++ rest) = intReading n rest := by
  have hne : Nat.toDigits 10 n.natAbs ≠ [] := Nat.toDigits_ne_nil
  have hall := isDigit_toDigits n.natAbs
  have hread := fun negative left => readMagnitude_toDigits negative left n.natAbs rest hr
  rw [toList_int]
  cases hds : Nat.toDigits 10 n.natAbs with
  | nil => exact absurd hds hne
  | cons c ds =>
    rw [hds] at hall hread
    have hc : isDigit c = true := hall c (List.mem_cons_self ..)
    have hconst := readConstant?_digit c (ds ++ rest) hc
    have hsign : c ≠ '-' := by
      rintro rfl
      exact absurd hc (by decide)
    simp only [List.cons_append] at hread
    split
    case isTrue h =>
      simp only [List.cons_append, readScalar, hconst.2, readNumber, hread, if_true]
      rw [show -(n.natAbs : Int) = n by omega]
    case isFalse h =>
      have hsame : (n.natAbs : Int) = n := by omega
      simp [readScalar, hconst.1, readNumber_unsigned c _ hsign, hread, hsame]

/-- The characters of a value's text. -/
def text (v : Json) : List Char :=
  (write compact v).toList

def itemsText (items : List Json) : List Char :=
  [','].intercalate (items.map text)

def fieldText (f : String × Json) : List Char :=
  '"' :: (f.1.toList.flatMap escapedChar ++ '"' :: ':' :: text f.2)

def fieldsText (fields : List (String × Json)) : List Char :=
  [','].intercalate (fields.map fieldText)

theorem toList_writeItems (items : List Json) :
    (writeItems compact items).map String.toList = items.map text := by
  induction items with
  | nil => rfl
  | cons v vs ih =>
    rw [writeItems, List.map_cons, ih]
    rfl

theorem toList_writeFields (fields : List (String × Json)) :
    (writeFields compact fields).map String.toList = fields.map fieldText := by
  induction fields with
  | nil => rfl
  | cons f fs ih =>
    rw [writeFields, List.map_cons, ih]
    simp [fieldText, text, toList_quotedString, compact]

theorem text_arr (items : List Json) : text (.arr items) = '[' :: (itemsText items ++ [']']) := by
  have hsep : compact.item.toList = [','] := rfl
  rw [text, write, String.toList_append, String.toList_append, String.toList_intercalate, hsep,
    toList_writeItems]
  rfl

theorem text_obj (fields : List (String × Json)) :
    text (.obj fields) = '\x7b' :: (fieldsText fields ++ ['\x7d']) := by
  have hsep : compact.item.toList = [','] := rfl
  rw [text, write, String.toList_append, String.toList_append, String.toList_intercalate, hsep,
    toList_writeFields]
  rfl

theorem text_str (s : String) : text (.str s) = '"' :: (s.toList.flatMap escapedChar ++ ['"']) :=
  toList_quotedString s

theorem int_head (n : Int) :
    ∃ c cs, text (.int n) = c :: cs ∧ isSpace c = false ∧ c ≠ ']' ∧ c ≠ '\ufeff' := by
  obtain ⟨c, cs, hc, hsign⟩ := toList_int_head n
  have hchar : ∀ d, isDigit d = false → d ≠ '-' → c ≠ d := by
    rintro d hd hminus rfl
    rcases hsign with hsign | hsign
    · exact hminus hsign
    · rw [hd] at hsign
      exact Bool.noConfusion hsign
  refine ⟨c, cs, hc, ?_, hchar ']' (by decide) (by decide), hchar _ (by decide) (by decide)⟩
  simp [isSpace, hchar ' ' (by decide) (by decide), hchar '\t' (by decide) (by decide),
    hchar '\n' (by decide) (by decide), hchar '\r' (by decide) (by decide)]

/-- No value begins with white space, a closing bracket or a byte order mark. -/
theorem text_head (v : Json) (hv : v.Restorable) :
    ∃ c cs, text v = c :: cs ∧ isSpace c = false ∧ c ≠ ']' ∧ c ≠ '\ufeff' := by
  cases v with
  | null => exact ⟨'n', _, rfl, by decide⟩
  | bool b => cases b with
    | true => exact ⟨'t', _, rfl, by decide⟩
    | false => exact ⟨'f', _, rfl, by decide⟩
  | int n => exact int_head n
  | float x => exact hv.elim
  | str s => exact ⟨'"', _, text_str s, by decide⟩
  | arr items => exact ⟨'[', _, text_arr items, by decide⟩
  | obj fields => exact ⟨'\x7b', _, text_obj fields, by decide⟩

theorem skipSpace_cons (c : Char) (cs : List Char) (hc : isSpace c = false) :
    skipSpace (c :: cs) = c :: cs := by
  simp [skipSpace, hc]

theorem endsNumeral_cons (c : Char) (cs : List Char)
    (hc : isDigit c = false ∧ c ≠ '.' ∧ c ≠ 'e' ∧ c ≠ 'E') : EndsNumeral (c :: cs) := by
  intro d hd
  cases hd
  exact hc

theorem itemsText_cons (v w : Json) (vs : List Json) :
    itemsText (v :: w :: vs) = text v ++ ',' :: itemsText (w :: vs) := by
  simp [itemsText]

theorem fieldsText_cons (f g : String × Json) (fs : List (String × Json)) :
    fieldsText (f :: g :: fs) = fieldText f ++ ',' :: fieldsText (g :: fs) := by
  simp [fieldsText]

theorem itemsText_head (v : Json) (vs : List Json) (hv : v.Restorable) :
    ∃ c cs, itemsText (v :: vs) = c :: cs ∧ isSpace c = false ∧ c ≠ ']' := by
  obtain ⟨c, cs, hc, hspace, hclose, -⟩ := text_head v hv
  cases vs with
  | nil => exact ⟨c, cs, by simp [itemsText, hc], hspace, hclose⟩
  | cons w vs => exact ⟨c, _, by rw [itemsText_cons, hc]; rfl, hspace, hclose⟩

theorem fieldsText_head (f : String × Json) (fs : List (String × Json)) :
    ∃ cs, fieldsText (f :: fs) = '"' :: cs := by
  cases fs with
  | nil => exact ⟨_, by rw [fieldsText, List.map_singleton, List.intercalate_singleton]; rfl⟩
  | cons g fs => exact ⟨_, by rw [fieldsText_cons]; rfl⟩

theorem readValue_int (fuel : Nat) (n : Int) (rest : List Char) (hr : EndsNumeral rest) :
    readValue (fuel + 1) (text (.int n) ++ rest) = intReading n rest := by
  have hread := readScalar_int n rest hr
  obtain ⟨c, cs, hc, hsign⟩ := toList_int_head n
  rw [hc] at hread
  rw [text, write, hc]
  -- a sign or a digit begins no other kind of value
  unfold readValue
  split
  case h_1 heq =>
    injection heq with heq
    subst heq
    rcases hsign with hsign | hsign <;> exact absurd hsign (by decide)
  case h_2 heq =>
    injection heq with heq
    subst heq
    rcases hsign with hsign | hsign <;> exact absurd hsign (by decide)
  case h_3 heq =>
    injection heq with heq
    subst heq
    rcases hsign with hsign | hsign <;> exact absurd hsign (by decide)
  case h_4 => exact hread

/-- So much fuel is enough for the texts that are no longer. -/
def RestoresValues (fuel : Nat) : Prop :=
  ∀ v : Json, v.Everywhere Restorable → (text v).length ≤ fuel → ∀ rest, EndsNumeral rest →
    readValue fuel (text v ++ rest) = .ok (v, rest)

def RestoresItems (fuel : Nat) : Prop :=
  ∀ v vs, EverywhereItems Restorable (v :: vs) → (itemsText (v :: vs)).length < fuel →
    ∀ rest acc, readItems fuel (itemsText (v :: vs) ++ ']' :: rest) acc =
      .ok (.arr (acc.reverse ++ v :: vs), rest)

def RestoresFields (fuel : Nat) : Prop :=
  ∀ f fs, EverywhereFields Restorable (f :: fs) → (fieldsText (f :: fs)).length < fuel →
    ∀ rest acc, readFields fuel (fieldsText (f :: fs) ++ '\x7d' :: rest) acc =
      .ok (.obj (putAll [] (acc.reverse ++ f :: fs)), rest)

theorem restoresValues_succ (fuel : Nat) (hItems : RestoresItems fuel)
    (hFields : RestoresFields fuel) : RestoresValues (fuel + 1) := by
  intro v hv hfuel rest hr
  cases v with
  | null => rfl
  | bool b => cases b with
    | true => rfl
    | false => rfl
  | int n => exact (readValue_int fuel n rest hr).trans (if_neg (Nat.not_lt.mpr hv))
  | float x => exact hv.elim
  | str s =>
    rw [text_str]
    simp [readValue, readString_quoted, Except.map]
  | arr items =>
    rw [text_arr] at hfuel ⊢
    cases items with
    | nil => rfl
    | cons v vs =>
      obtain ⟨d, ds, hd, hspace, hclose⟩ := itemsText_head v vs (here_of_everywhere _ v hv.2.1)
      have ih := hItems v vs hv.2 (by simp at hfuel; omega) rest []
      rw [hd] at ih ⊢
      simp [readValue, skipSpace_cons _ _ hspace, hclose] at ih ⊢
      exact ih
  | obj fields =>
    rw [text_obj] at hfuel ⊢
    cases fields with
    | nil => rfl
    | cons f fs =>
      obtain ⟨ds, hd⟩ := fieldsText_head f fs
      have ih := hFields f fs hv.2 (by simp at hfuel; omega) rest []
      have hkeys : putAll [] (f :: fs) = f :: fs := putAll_of_nodup [] (f :: fs) hv.1
      rw [hd] at ih ⊢
      simp [readValue, skipSpace_cons '"' _ (by decide), hkeys] at ih ⊢
      exact ih

theorem restoresItems_succ (fuel : Nat) (hValues : RestoresValues fuel)
    (hItems : RestoresItems fuel) : RestoresItems (fuel + 1) := by
  intro v vs hv hfuel rest acc
  cases vs with
  | nil =>
    have hone : itemsText [v] = text v := by simp [itemsText]
    rw [hone] at hfuel ⊢
    -- the bracket ends a numeral, should the value be one
    have ih := hValues v hv.1 (by omega) (']' :: rest) (endsNumeral_cons _ _ (by decide))
    simp [readItems, ih, skipSpace_cons ']' _ (by decide)]
  | cons w vs =>
    obtain ⟨d, ds, hd, hspace, -⟩ := itemsText_head w vs (here_of_everywhere _ w hv.2.1)
    rw [itemsText_cons] at hfuel ⊢
    simp only [List.length_append, List.length_cons] at hfuel
    have ih := hValues v hv.1 (by omega) (',' :: (itemsText (w :: vs) ++ ']' :: rest))
      (endsNumeral_cons _ _ (by decide))
    have ihs := hItems w vs hv.2 (by omega) rest (v :: acc)
    have hskip : skipSpace (itemsText (w :: vs) ++ ']' :: rest) =
        itemsText (w :: vs) ++ ']' :: rest := by
      rw [hd]
      exact skipSpace_cons _ _ hspace
    simp [readItems, ih, skipSpace_cons ',' _ (by decide), hskip, ihs]

theorem restoresFields_succ (fuel : Nat) (hValues : RestoresValues fuel)
    (hFields : RestoresFields fuel) : RestoresFields (fuel + 1) := by
  rintro ⟨key, v⟩ fs hv hfuel rest acc
  obtain ⟨d, ds, hd, hspace, -⟩ := text_head v (here_of_everywhere _ v hv.1)
  have hskip : ∀ rest, skipSpace (text v ++ rest) = text v ++ rest := by
    intro rest
    rw [hd]
    exact skipSpace_cons _ _ hspace
  cases fs with
  | nil =>
    have hone : fieldsText [(key, v)] = fieldText (key, v) := by simp [fieldsText]
    rw [hone, fieldText] at hfuel ⊢
    simp only [List.length_append, List.length_cons] at hfuel
    have ih := hValues v hv.1 (by omega) ('\x7d' :: rest) (endsNumeral_cons _ _ (by decide))
    simp [readFields, readString_quoted, ih, skipSpace_cons ':' _ (by decide), hskip,
      skipSpace_cons '\x7d' _ (by decide)]
  | cons g fs =>
    obtain ⟨es, he⟩ := fieldsText_head g fs
    rw [fieldsText_cons, fieldText] at hfuel ⊢
    simp only [List.length_append, List.length_cons] at hfuel
    have ih := hValues v hv.1 (by omega) (',' :: (fieldsText (g :: fs) ++ '\x7d' :: rest))
      (endsNumeral_cons _ _ (by decide))
    have ihs := hFields g fs hv.2 (by omega) rest ((key, v) :: acc)
    have hskip' : skipSpace (fieldsText (g :: fs) ++ '\x7d' :: rest) =
        fieldsText (g :: fs) ++ '\x7d' :: rest := by
      rw [he]
      exact skipSpace_cons _ _ (by decide)
    simp [readFields, readString_quoted, ih, skipSpace_cons ':' _ (by decide), hskip,
      skipSpace_cons ',' _ (by decide), hskip', ihs]

theorem restores (fuel : Nat) :
    RestoresValues fuel ∧ RestoresItems fuel ∧ RestoresFields fuel := by
  -- each of the three calls the others with one unit of fuel less
  induction fuel with
  | zero =>
    refine ⟨?_, ?_, ?_⟩
    · intro v hv hfuel
      obtain ⟨c, cs, hc, -⟩ := text_head v (here_of_everywhere _ v hv)
      rw [hc] at hfuel
      cases hfuel
    · intro v vs hv hfuel
      cases hfuel
    · intro f fs hv hfuel
      cases hfuel
  | succ fuel ih =>
    obtain ⟨hValues, hItems, hFields⟩ := ih
    exact ⟨restoresValues_succ fuel hItems hFields, restoresItems_succ fuel hValues hItems,
      restoresFields_succ fuel hValues hFields⟩

theorem read_write (v : Json) (hv : v.Everywhere Restorable) : read (write compact v) = .ok v := by
  obtain ⟨c, cs, hc, hspace, -, hmark⟩ := text_head v (here_of_everywhere _ v hv)
  have hread := (restores ((text v).length + 1)).1 v hv (by omega) [] (by intro c hc; cases hc)
  rw [List.append_nil] at hread
  have hskip : skipSpace (text v) = text v := by
    rw [hc]
    exact skipSpace_cons _ _ hspace
  -- no byte order mark in front, nothing left at the end
  change (readDocument (text v)).mapError _ = _
  have hdoc : readDocument (text v) = .ok v := by
    rw [readDocument, if_neg (by simp [hc, hmark])]
    simp only [hskip, hread]
    rfl
  rw [hdoc]
  rfl

/-- No control characters, and so no line ends. -/
def Printable (cs : List Char) : Prop :=
  ∀ c ∈ cs, 0x20 ≤ c.toNat

instance (cs : List Char) : Decidable (Printable cs) :=
  List.decidableBAll (fun c : Char => 0x20 ≤ c.toNat) cs

theorem printable_append (as bs : List Char) :
    Printable (as ++ bs) ↔ Printable as ∧ Printable bs := by
  simp [Printable, or_imp, forall_and]

theorem printable_cons (c : Char) (cs : List Char) :
    Printable (c :: cs) ↔ 0x20 ≤ c.toNat ∧ Printable cs := by
  simp [Printable]

theorem printable_intercalate (parts : List (List Char)) (h : ∀ p ∈ parts, Printable p) :
    Printable ([','].intercalate parts) := by
  intro c hc
  rcases Text.mem_intercalate ',' parts c hc with rfl | ⟨p, hp, hcp⟩
  · decide
  · exact h p hp c hcp

theorem feed_not_mem_of_printable (cs : List Char) (h : Printable cs) : '\n' ∉ cs := by
  intro hfeed
  exact absurd (h _ hfeed) (by decide)

/-- No reading of line ends changes a text of such lines. -/
theorem return_not_mem_of_printable (ls : List (List Char)) (h : ∀ l ∈ ls, Printable l) :
    '\r' ∉ ['\n'].intercalate ls ++ ['\n'] := by
  intro hreturn
  rcases List.mem_append.mp hreturn with hreturn | hreturn
  · rcases Text.mem_intercalate '\n' ls _ hreturn with hfeed | ⟨l, hl, hmem⟩
    · exact absurd hfeed (by decide)
    · exact absurd (h l hl _ hmem) (by decide)
  · exact absurd (List.mem_singleton.mp hreturn) (by decide)

theorem printable_digits (n : Nat) : Printable (Nat.toDigits 10 n) := by
  intro c hc
  have h := isDigit_toDigits n c hc
  simp only [isDigit, Bool.and_eq_true, decide_eq_true_eq, Char.le_def] at h
  exact Nat.le_trans (by decide) (UInt32.le_iff_toNat_le.mp h.1)

theorem printable_int (n : Int) : Printable (toString n).toList := by
  rw [toList_int]
  split
  case isTrue => exact (printable_cons _ _).mpr ⟨by decide, printable_digits _⟩
  case isFalse => exact printable_digits _

mutual

theorem printable_text : (v : Json) → v.Everywhere Restorable → Printable (text v)
  | .null, _ => by simp [text, write, Printable]
  | .bool true, _ => by simp [text, write, Printable]
  | .bool false, _ => by simp [text, write, Printable]
  | .int n, _ => printable_int n
  | .float _, h => h.elim
  | .str s, _ => quotedString_printable s
  | .arr items, h => by
    rw [text_arr, printable_cons, printable_append]
    refine ⟨by decide, printable_intercalate _ ?_, by simp [Printable]⟩
    rw [List.forall_mem_map]
    exact printable_items items h.2
  | .obj fields, h => by
    rw [text_obj, printable_cons, printable_append]
    refine ⟨by decide, printable_intercalate _ ?_, by simp [Printable]⟩
    rw [List.forall_mem_map]
    exact printable_fields fields h.2

theorem printable_items : (items : List Json) → EverywhereItems Restorable items →
    ∀ v ∈ items, Printable (text v)
  | [], _ => by simp
  | v :: vs, h => List.forall_mem_cons.mpr ⟨printable_text v h.1, printable_items vs h.2⟩

theorem printable_fields : (fields : List (String × Json)) → EverywhereFields Restorable fields →
    ∀ f ∈ fields, Printable (fieldText f)
  | [], _ => by simp
  | (key, v) :: fs, h => by
    have hkey := quotedString_printable key
    rw [toList_quotedString] at hkey
    refine List.forall_mem_cons.mpr ⟨?_, printable_fields fs h.2⟩
    have hsplit : fieldText (key, v) =
        ('"' :: (key.toList.flatMap escapedChar ++ ['"'])) ++ (':' :: text v) := by
      simp [fieldText]
    rw [hsplit, printable_append, printable_cons ':']
    exact ⟨hkey, by decide, printable_text v h.1⟩

end

end DocNavigation.Json
