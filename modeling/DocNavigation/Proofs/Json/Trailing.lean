import DocNavigation.Proofs.Json.Fuel
import DocNavigation.Proofs.Json.Quoted

/-!
What stands behind a text. Characters that end a value leave a reading as it is, and white space
makes no difference to what a text means. Only what is refused may be refused for another reason.
-/

namespace DocNavigation.Json

def Refused {α : Type} (x : Reading α) : Prop :=
  ∃ h, x = .error h

/-- The characters that continue no value. -/
def stops : List Char :=
  [' ', '\t', '\n', '\r', ',', ':', ']', '\x7d']

/-- Text that may stand behind a value. -/
def Stops (more : List Char) : Prop :=
  ∀ c ∈ more.head?, c ∈ stops

/-- White space alone. -/
def Blank (more : List Char) : Prop :=
  ∀ c ∈ more, isSpace c = true

instance (more : List Char) : Decidable (Blank more) :=
  List.decidableBAll (fun c : Char => isSpace c = true) more

theorem isSpace_iff (c : Char) : isSpace c = true ↔ c = ' ' ∨ c = '\t' ∨ c = '\n' ∨ c = '\r' := by
  simp [isSpace, or_assoc]

theorem blank_nil : Blank [] := nofun

theorem Blank.stops (more : List Char) (h : Blank more) : Stops more := by
  intro c hc
  rcases (isSpace_iff c).mp (h c (List.mem_of_mem_head? hc)) with rfl | rfl | rfl | rfl <;> decide

theorem skipSpace_eq_nil_iff (cs : List Char) : skipSpace cs = [] ↔ Blank cs := by
  induction cs with
  | nil => exact iff_of_true rfl blank_nil
  | cons c cs ih =>
    rw [Blank, List.forall_mem_cons]
    by_cases hc : isSpace c = true
    · rw [skipSpace, List.dropWhile_cons_of_pos hc, and_iff_right hc]
      exact ih
    · rw [skipSpace, List.dropWhile_cons_of_neg hc]
      exact iff_of_false (List.cons_ne_nil _ _) fun h => hc h.1

/-- The second reading is that of the same text with more behind it: what is left ends in that, or
the first is refused. White space lets nothing be read that is refused without. -/
def Trails {α : Type} (more : List Char) (x y : Reading α) : Prop :=
  (∃ a rest, x = .ok (a, rest) ∧ y = .ok (a, rest ++ more)) ∨
    Refused x ∧ (Blank more → Refused y)

section
variable {more : List Char}

theorem Trails.ok {α : Type} (a : α) (rest : List Char) :
    Trails more (.ok (a, rest)) (.ok (a, rest ++ more)) :=
  .inl ⟨a, rest, rfl, rfl⟩

theorem Trails.error {α : Type} (h k : Halt) : Trails (α := α) more (.error h) (.error k) :=
  .inr ⟨⟨h, rfl⟩, fun _ => ⟨k, rfl⟩⟩

theorem Trails.map {α β : Type} {x y : Reading α} (f : α → β) (h : Trails more x y) :
    Trails more (x.map fun r => (f r.1, r.2)) (y.map fun r => (f r.1, r.2)) := by
  rcases h with ⟨a, rest, rfl, rfl⟩ | ⟨⟨h, rfl⟩, hy⟩
  · exact .ok (f a) rest
  · refine .inr ⟨⟨h, rfl⟩, fun hmore => ?_⟩
    obtain ⟨k, rfl⟩ := hy hmore
    exact ⟨k, rfl⟩

/-- White space that reaches the end of the text goes on in what stands behind it. -/
theorem skipSpace_more (more cs : List Char) :
    (skipSpace cs = [] ∧ skipSpace (cs ++ more) = skipSpace more) ∨
    ∃ c rest, skipSpace cs = c :: rest ∧ skipSpace (cs ++ more) = c :: (rest ++ more) := by
  induction cs with
  | nil => exact .inl ⟨rfl, rfl⟩
  | cons c cs ih =>
    by_cases hc : isSpace c = true
    · simpa [skipSpace, hc] using ih
    · exact .inr ⟨c, cs, by simp [skipSpace, hc], by simp [skipSpace, hc]⟩

end

section
variable (opening : Nat)

/-- No white space closes a string. -/
theorem stringBody_blank (more : List Char) (hmore : Blank more) (skip : Nat) (acc : List Char) :
    Refused (stringBody opening more skip acc) := by
  induction more generalizing skip acc with
  | nil => exact ⟨_, rfl⟩
  | cons c more ih =>
    rw [Blank, List.forall_mem_cons] at hmore
    cases skip with
    | succ skip => exact ih hmore.2 skip acc
    | zero =>
      rcases (isSpace_iff c).mp hmore.1 with rfl | rfl | rfl | rfl
      · exact ih hmore.2 0 (' ' :: acc)
      · exact ⟨_, rfl⟩
      · exact ⟨_, rfl⟩
      · exact ⟨_, rfl⟩

/-- An escape that asks for all characters up to the white space is followed by no closing quote. -/
theorem stringBody_short (cs more : List Char) (skip : Nat) (acc : List Char) (h : cs.length ≤ skip)
    (hmore : Blank more) : Refused (stringBody opening (cs ++ more) skip acc) := by
  induction cs generalizing skip with
  | nil => exact stringBody_blank opening more hmore skip acc
  | cons c cs ih =>
    cases skip with
    | zero => cases h
    | succ skip => exact ih skip (Nat.le_of_succ_le_succ h)

theorem unicodeEscape_size (cs : List Char) (r : Char × Nat) (h : unicodeEscape cs = .ok r) :
    r.2 = 4 ∨ r.2 = 10 := by
  unfold unicodeEscape at h
  split at h
  · cases h
  split at h
  · cases h
  split at h
  · split at h
    · split at h
      · cases h
      split at h
      · exact .inr (congrArg Prod.snd (Except.ok.inj h)).symm
      · exact .inl (congrArg Prod.snd (Except.ok.inj h)).symm
    · exact .inl (congrArg Prod.snd (Except.ok.inj h)).symm
  · exact .inl (congrArg Prod.snd (Except.ok.inj h)).symm

theorem stringBody_unicode (after acc : List Char) :
    stringBody opening ('\\' :: 'u' :: after) 0 acc =
      (unicodeEscape after).bind fun r => stringBody opening after r.2 (r.1 :: acc) := by
  rw [stringBody, if_neg (by decide), if_pos rfl]
  simp only [if_true]
  cases unicodeEscape after with
  | error e => rfl
  | ok r => rfl

/-- Four digits and a closing quote have no room in what is left. -/
theorem stringBody_unicode_short (after more acc : List Char) (h : after.length ≤ 4)
    (hmore : Blank more) :
    Refused (stringBody opening ('\\' :: 'u' :: (after ++ more)) 0 acc) := by
  rw [stringBody_unicode]
  cases hescape : unicodeEscape (after ++ more) with
  | error e => exact ⟨e, rfl⟩
  | ok r =>
    have hsize : after.length ≤ r.2 := by
      have hsize := unicodeEscape_size _ r hescape
      omega
    exact stringBody_short opening after more r.2 (r.1 :: acc) hsize hmore

/-- An escape by number with another one behind it that reaches the end of the text. -/
theorem stringBody_pair_short (after next more acc : List Char)
    (h : after.drop 4 = '\\' :: 'u' :: next) (hnext : next.length ≤ 4) (hmore : Blank more) :
    Refused (stringBody opening ('\\' :: 'u' :: (after ++ more)) 0 acc) := by
  obtain ⟨digits, hdigits, rfl⟩ :
      ∃ digits, digits.length = 4 ∧ after = digits ++ '\\' :: 'u' :: next := by
    have hlength := congrArg List.length h
    rw [List.length_drop, List.length_cons] at hlength
    refine ⟨after.take 4, List.length_take_of_le (by omega), ?_⟩
    rw [← h, List.take_append_drop]
  rw [stringBody_unicode]
  cases hescape : unicodeEscape ((digits ++ '\\' :: 'u' :: next) ++ more) with
  | error e => exact ⟨e, rfl⟩
  | ok r =>
    rcases unicodeEscape_size _ r hescape with hsize | hsize
    · have hskip := stringBody_skip opening digits ('\\' :: 'u' :: (next ++ more)) (r.1 :: acc)
      have hrefused := stringBody_unicode_short opening next more (r.1 :: acc) hnext hmore
      rw [← hskip, hdigits, ← hsize] at hrefused
      rw [List.append_assoc]
      exact hrefused
    · have htotal : (digits ++ '\\' :: 'u' :: next).length ≤ r.2 := by
        rw [List.length_append, List.length_cons, List.length_cons]
        omega
      exact stringBody_short opening _ more r.2 (r.1 :: acc) htotal hmore

variable {more : List Char} (hmore : Stops more)
include hmore

/-- The escape and a second one behind it are told by the characters that they take. -/
theorem unicodeEscape_more (after : List Char) (h : 4 < after.length)
    (hnext : ∀ next, after.drop 4 = '\\' :: 'u' :: next → 4 < next.length) :
    (∃ r, unicodeEscape after = .ok r ∧ unicodeEscape (after ++ more) = .ok r) ∨
      ∃ e f, unicodeEscape after = .error e ∧ unicodeEscape (after ++ more) = .error f := by
  have htake : (after ++ more).take 4 = after.take 4 :=
    List.take_append_of_le_length (Nat.le_of_lt h)
  have hdrop : (after ++ more).drop 4 = after.drop 4 ++ more :=
    List.drop_append_of_le_length (Nat.le_of_lt h)
  have hlong : ¬ after.length ≤ 4 ∧ ¬ (after ++ more).length ≤ 4 := by
    rw [List.length_append]
    omega
  rw [unicodeEscape, unicodeEscape, if_neg hlong.1, if_neg hlong.2, htake, hdrop]
  cases Text.hexNumber? (after.take 4) with
  | none => exact .inr ⟨_, _, rfl, rfl⟩
  | some high =>
    dsimp only
    split
    case h_1 next hsecond =>
      have hroom := hnext next hsecond
      have hroom' : 4 < (next ++ more).length := by
        rw [List.length_append]
        omega
      rw [hsecond]
      simp only [List.cons_append, hroom, hroom', decide_true, Bool.and_true,
        List.take_append_of_le_length (Nat.le_of_lt hroom)]
      cases isHighSurrogate high with
      | false => exact .inl ⟨_, rfl, rfl⟩
      | true =>
        cases Text.hexNumber? (next.take 4) with
        | none => exact .inr ⟨_, _, rfl, rfl⟩
        | some low =>
          simp only [if_true]
          cases isLowSurrogate low with
          | false => exact .inl ⟨_, rfl, rfl⟩
          | true => exact .inl ⟨_, rfl, rfl⟩
    case h_2 hnone =>
      split
      case h_1 next hsecond =>
        obtain ⟨c, rest, hrest⟩ : ∃ c rest, after.drop 4 = c :: rest :=
          List.exists_cons_of_length_pos (by rw [List.length_drop]; omega)
        rw [hrest] at hsecond hnone
        cases rest with
        | nil =>
          -- what stands behind would be the letter of the second escape
          obtain ⟨rfl, rfl⟩ := List.cons.inj hsecond
          exact absurd (hmore 'u' rfl) (by decide)
        | cons d rest =>
          cases hsecond
          exact absurd rfl (hnone rest)
      case h_2 => exact .inl ⟨_, rfl, rfl⟩

theorem stringBody_unicode_trails (opening' : Nat) (after acc : List Char)
    (ih : ∀ size acc, Trails more (stringBody opening after size acc)
      (stringBody opening' (after ++ more) size acc)) :
    Trails more (stringBody opening ('\\' :: 'u' :: after) 0 acc)
      (stringBody opening' ('\\' :: 'u' :: (after ++ more)) 0 acc) := by
  by_cases hlong : 4 < after.length
  case neg =>
    have hshort := Nat.le_of_not_lt hlong
    have hx := stringBody_unicode_short opening after [] acc hshort blank_nil
    rw [List.append_nil] at hx
    exact .inr ⟨hx, stringBody_unicode_short opening' after more acc hshort⟩
  by_cases hpair : ∃ next, after.drop 4 = '\\' :: 'u' :: next ∧ next.length ≤ 4
  · obtain ⟨next, hsecond, hnext⟩ := hpair
    have hx := stringBody_pair_short opening after next [] acc hsecond hnext blank_nil
    rw [List.append_nil] at hx
    exact .inr ⟨hx, stringBody_pair_short opening' after next more acc hsecond hnext⟩
  · have hnext : ∀ next, after.drop 4 = '\\' :: 'u' :: next → 4 < next.length := by
      intro next hsecond
      exact Nat.lt_of_not_le fun hle => hpair ⟨next, hsecond, hle⟩
    rw [stringBody_unicode, stringBody_unicode]
    rcases unicodeEscape_more hmore after hlong hnext with ⟨r, hx, hy⟩ | ⟨e, f, hx, hy⟩
    · rw [hx, hy]
      exact ih r.2 (r.1 :: acc)
    · rw [hx, hy]
      exact .error e f

theorem stringBody_trails (cs : List Char) (opening' skip : Nat) (acc : List Char) :
    Trails more (stringBody opening cs skip acc) (stringBody opening' (cs ++ more) skip acc) := by
  induction cs generalizing skip acc with
  | nil => exact .inr ⟨⟨_, rfl⟩, fun hblank => stringBody_blank opening' more hblank skip acc⟩
  | cons c cs ih =>
    cases skip with
    | succ skip => exact ih skip acc
    | zero =>
      by_cases hquote : c = '"'
      · subst hquote
        exact .ok acc.reverse cs
      by_cases hback : c = '\\'
      · subst hback
        cases cs with
        | nil =>
          refine .inr ⟨⟨_, rfl⟩, fun hblank => ?_⟩
          cases more with
          | nil => exact ⟨_, rfl⟩
          | cons d more =>
            rcases (isSpace_iff d).mp (hblank d (List.mem_cons_self ..)) with
              rfl | rfl | rfl | rfl <;> exact ⟨_, rfl⟩
        | cons e after =>
          by_cases hu : e = 'u'
          · subst hu
            exact stringBody_unicode_trails opening hmore opening' after acc
              fun size acc => ih (size + 1) acc
          · simp only [List.cons_append, stringBody, hu, if_true, if_false]
            rw [if_neg (by decide), if_neg (by decide)]
            cases simpleEscape? e with
            | none => exact .error _ _
            | some d => exact ih 1 (d :: acc)
      simp only [List.cons_append, stringBody, hquote, hback, if_false]
      split
      · exact .error _ _
      · exact ih 0 (c :: acc)

theorem readString_trails (cs : List Char) :
    Trails more (readString cs) (readString (cs ++ more)) :=
  (stringBody_trails _ hmore cs _ 0 []).map String.ofList

end

theorem readNumber_stop (c : Char) (hc : c ∈ stops) (rest : List Char) :
    Refused (readNumber (c :: rest)) := by
  have hall : ∀ d ∈ stops, ∀ rest, Refused (readNumber (d :: rest)) := by
    simp [stops, readNumber, readMagnitude, wholePart?, isDigit, Refused]
  exact hall c hc rest

/-- What is left after a part of a numeral has the other text behind it. -/
def followed {α : Type} (more : List Char) (r : α × List Char) : α × List Char :=
  (r.1, r.2 ++ more)

section
variable {more : List Char} (hmore : Stops more)
include hmore

/-- Where a part of a numeral ends, it ends with what stands behind it as well. -/
theorem span_more (cs : List Char) :
    (cs ++ more).span isDigit = followed more (cs.span isDigit) := by
  have hall : (cs ++ more).takeWhile isDigit = cs.takeWhile isDigit ∧
      (cs ++ more).dropWhile isDigit = cs.dropWhile isDigit ++ more := by
    induction cs with
    | nil =>
      cases more with
      | nil => exact ⟨rfl, rfl⟩
      | cons c more =>
        have hdigit : ∀ d ∈ stops, ¬ isDigit d = true := by simp [stops, isDigit]
        simp [hdigit c (hmore c rfl)]
    | cons c cs ih =>
      by_cases hc : isDigit c = true
      · simp [hc, ih]
      · simp [hc]
  rw [followed, List.span_eq_takeWhile_dropWhile, List.span_eq_takeWhile_dropWhile, hall.1, hall.2]

theorem wholePart?_more (cs : List Char) :
    wholePart? (cs ++ more) = (wholePart? cs).map (followed more) := by
  cases cs with
  | nil =>
    cases more with
    | nil => rfl
    | cons c more =>
      have hall : ∀ d ∈ stops, ∀ rest, wholePart? (d :: rest) = none := by
        simp [stops, wholePart?, isDigit]
      exact hall c (hmore c rfl) more
  | cons c cs =>
    by_cases hzero : c = '0'
    · subst hzero
      rfl
    · have hspan := span_more hmore (c :: cs)
      rw [List.cons_append] at hspan
      rw [List.cons_append, wholePart?.eq_2 _ _ hzero, wholePart?.eq_2 _ _ hzero, hspan]
      split <;> rfl

theorem fractionPart_more (cs : List Char) :
    fractionPart (cs ++ more) = followed more (fractionPart cs) := by
  have hall : ∀ d ∈ stops, ∀ rest, fractionPart (d :: rest) = ([], d :: rest) ∧
      fractionPart ('.' :: d :: rest) = ([], '.' :: d :: rest) := by
    simp [stops, fractionPart, isDigit]
  cases cs with
  | nil =>
    cases more with
    | nil => rfl
    | cons d more => exact (hall d (hmore d rfl) more).1
  | cons p cs =>
    cases cs with
    | nil =>
      by_cases hp : p = '.'
      · subst hp
        cases more with
        | nil => rfl
        | cons d more => exact (hall d (hmore d rfl) more).2
      · simp [fractionPart, hp, followed]
    | cons c cs =>
      by_cases hp : p = '.'
      · subst hp
        have hspan := span_more hmore (c :: cs)
        rw [List.cons_append] at hspan
        rw [List.cons_append, List.cons_append, fractionPart, fractionPart, hspan]
        split <;> rfl
      · simp [fractionPart, hp, followed]

theorem exponentDigits_more (negative : Bool) (cs : List Char) :
    exponentDigits negative (cs ++ more) = (exponentDigits negative cs).map (followed more) := by
  rw [exponentDigits, exponentDigits, span_more hmore]
  rcases cs.span isDigit with ⟨ds, rest⟩
  cases ds <;> rfl

theorem exponentPart?_more (cs : List Char) :
    exponentPart? (cs ++ more) = (exponentPart? cs).map (followed more) := by
  have hall : ∀ d ∈ stops, ∀ rest, exponentPart? (d :: rest) = none ∧
      exponentPart? ('e' :: d :: rest) = none ∧ exponentPart? ('E' :: d :: rest) = none := by
    simp [stops, exponentPart?, exponentDigits, isDigit, List.span_eq_takeWhile_dropWhile]
  cases cs with
  | nil =>
    cases more with
    | nil => rfl
    | cons d more => exact (hall d (hmore d rfl) more).1
  | cons e cs =>
    by_cases he : e = 'e' ∨ e = 'E'
    case neg => simp [exponentPart?, he]
    cases cs with
    | nil =>
      cases more with
      | nil => rcases he with rfl | rfl <;> rfl
      | cons d more =>
        obtain ⟨-, hlow, hhigh⟩ := hall d (hmore d rfl) more
        rcases he with rfl | rfl
        · exact hlow
        · exact hhigh
    | cons c cs =>
      unfold exponentPart?
      simp only [List.cons_append]
      rw [if_pos he, if_pos he]
      by_cases hplus : c = '+'
      · subst hplus
        exact exponentDigits_more hmore false cs
      by_cases hminus : c = '-'
      · subst hminus
        exact exponentDigits_more hmore true cs
      · have hdigits := exponentDigits_more hmore false (c :: cs)
        simpa [hplus, hminus] using hdigits

theorem isPrefixOf_more (word cs : List Char) (hword : ∀ c ∈ word, c ∉ stops) :
    word.isPrefixOf (cs ++ more) = word.isPrefixOf cs := by
  induction word generalizing cs with
  | nil => rfl
  | cons c word ih =>
    rw [List.forall_mem_cons] at hword
    cases cs with
    | nil =>
      cases more with
      | nil => rfl
      | cons d more =>
        have hne : c ≠ d := fun heq => hword.1 (heq ▸ hmore d rfl)
        simp [List.isPrefixOf, hne]
    | cons d cs => rw [List.cons_append, List.isPrefixOf, List.isPrefixOf, ih cs hword.2]

theorem readMagnitude_trails (negative : Bool) (left left' : Nat) (cs : List Char) :
    Trails more (readMagnitude negative left cs) (readMagnitude negative left' (cs ++ more)) := by
  unfold readMagnitude
  rw [wholePart?_more hmore]
  cases wholePart? cs with
  | none => exact .error _ _
  | some r =>
    obtain ⟨whole, rest⟩ := r
    simp only [Option.map_some, followed, fractionPart_more hmore, exponentPart?_more hmore]
    cases exponentPart? (fractionPart rest).2 with
    | none =>
      simp only [Option.map_none, Option.isNone_none, Option.getD_none, Bool.and_true]
      split
      · split
        · exact .error _ _
        · exact .ok _ _
      · exact .ok _ _
    | some e =>
      simp only [Option.map_some, Option.isNone_some, Option.getD_some, Bool.and_false]
      exact .ok _ _

theorem readNumber_trails (cs : List Char) :
    Trails more (readNumber cs) (readNumber (cs ++ more)) := by
  cases cs with
  | nil =>
    refine .inr ⟨⟨_, rfl⟩, fun _ => ?_⟩
    cases more with
    | nil => exact ⟨_, rfl⟩
    | cons d more => exact readNumber_stop d (hmore d rfl) more
  | cons c cs =>
    by_cases hc : c = '-'
    · subst hc
      exact readMagnitude_trails hmore true _ _ cs
    · have h := readMagnitude_trails hmore false (c :: cs).length (c :: cs ++ more).length (c :: cs)
      simpa [readNumber, hc] using h

theorem readConstant?_more (cs : List Char) :
    readConstant? (cs ++ more) = (readConstant? cs).map (followed more) := by
  have hwords : ∀ e ∈ constants, ∀ c ∈ e.1.toList, c ∉ stops := by simp [constants, stops]
  unfold readConstant?
  generalize constants = words at hwords ⊢
  induction words with
  | nil => rfl
  | cons e words ih =>
    obtain ⟨word, v⟩ := e
    rw [List.forall_mem_cons] at hwords
    rw [List.findSome?_cons, List.findSome?_cons, ih hwords.2]
    simp only [isPrefixOf_more hmore _ cs hwords.1]
    by_cases hstart : word.toList.isPrefixOf cs = true
    · have hlength : word.length ≤ cs.length := (List.isPrefixOf_iff_prefix.mp hstart).length_le
      simp only [if_pos hstart, List.drop_append_of_le_length hlength]
      rfl
    · simp only [if_neg hstart]

theorem readScalar_trails (cs : List Char) :
    Trails more (readScalar cs) (readScalar (cs ++ more)) := by
  rw [readScalar, readScalar, readConstant?_more hmore]
  cases readConstant? cs with
  | none => exact readNumber_trails hmore cs
  | some r => exact .ok r.1 r.2

end

theorem readValue_nil (fuel : Nat) : Refused (readValue fuel []) := by
  cases fuel with
  | zero => exact ⟨_, rfl⟩
  | succ fuel => exact ⟨_, rfl⟩

/-- Nothing that ends a value begins one. -/
theorem readValue_stop (fuel : Nat) (c : Char) (hc : c ∈ stops) (cs : List Char) :
    Refused (readValue fuel (c :: cs)) := by
  have hconstant : ∀ d ∈ stops, ∀ rest, readConstant? (d :: rest) = none := by
    simp [stops, readConstant?, constants]
  have hbegins : ∀ d ∈ stops, d ≠ '"' ∧ d ≠ '[' ∧ d ≠ '\x7b' := by simp [stops]
  cases fuel with
  | zero => exact ⟨_, rfl⟩
  | succ fuel =>
    obtain ⟨hquote, hlist, hobject⟩ := hbegins c hc
    simpa [readValue, hquote, hlist, hobject, readScalar, hconstant c hc cs] using
      readNumber_stop c hc cs

theorem valueThen_nil (fuel : Nat) (closing : Char) (done : Json → Json)
    (next : Nat → List Char → Json → Reading Json) :
    Refused (valueThen closing done next fuel []) := by
  obtain ⟨h, hvalue⟩ := readValue_nil fuel
  rw [valueThen, hvalue]
  exact ⟨h, rfl⟩

theorem readItems_nil (fuel : Nat) (acc : List Json) : Refused (readItems fuel [] acc) := by
  cases fuel with
  | zero => exact ⟨_, rfl⟩
  | succ fuel =>
    rw [readItems_succ]
    exact valueThen_nil fuel _ _ _

theorem readFields_nil (fuel : Nat) (acc : List (String × Json)) :
    Refused (readFields fuel [] acc) := by
  cases fuel with
  | zero => exact ⟨_, rfl⟩
  | succ fuel => exact ⟨_, rfl⟩

section
variable {more : List Char}

theorem Trails.afterSpace {α : Type} {x : List Char → Reading α} (hnil : Refused (x []))
    (h : ∀ cs, Trails more (x cs) (x (cs ++ more))) (cs : List Char) :
    Trails more (x (skipSpace cs)) (x (skipSpace (cs ++ more))) := by
  rcases skipSpace_more more cs with ⟨hx, hy⟩ | ⟨c, rest, hx, hy⟩
  · rw [hx, hy]
    refine .inr ⟨hnil, fun hblank => ?_⟩
    rw [(skipSpace_eq_nil_iff more).mpr hblank]
    exact hnil
  · rw [hx, hy]
    exact h (c :: rest)

theorem bracketed_trails (closing : Char) (empty : Json) (parts : List Char → Reading Json)
    (hnil : Refused (parts [])) (hparts : ∀ cs, Trails more (parts cs) (parts (cs ++ more)))
    (cs : List Char) :
    Trails more (bracketed closing empty parts cs)
      (bracketed closing empty parts (cs ++ more)) := by
  unfold bracketed
  rcases skipSpace_more more cs with ⟨hx, hy⟩ | ⟨c, rest, hx, hy⟩
  · rw [hx, hy]
    refine .inr ⟨hnil, fun hblank => ?_⟩
    rw [(skipSpace_eq_nil_iff more).mpr hblank]
    exact hnil
  · rw [hx, hy]
    dsimp only
    split
    · exact .ok empty rest
    · exact hparts (c :: rest)

section
variable (fuel : Nat)
  (hvalue : ∀ cs, Trails more (readValue fuel cs) (readValue fuel (cs ++ more)))
  (hitems : ∀ cs acc, Trails more (readItems fuel cs acc) (readItems fuel (cs ++ more) acc))
  (hfields : ∀ cs acc, Trails more (readFields fuel cs acc) (readFields fuel (cs ++ more) acc))

include hvalue in
theorem valueThen_trails (closing : Char) (done : Json → Json)
    (next : Nat → List Char → Json → Reading Json) (hnil : ∀ v, Refused (next fuel [] v))
    (hnext : ∀ cs v, Trails more (next fuel cs v) (next fuel (cs ++ more) v)) (cs : List Char) :
    Trails more (valueThen closing done next fuel cs)
      (valueThen closing done next fuel (cs ++ more)) := by
  unfold valueThen
  rcases hvalue cs with ⟨v, rest, hx, hy⟩ | ⟨⟨h, hx⟩, hy⟩
  · rw [hx, hy]
    dsimp only
    rcases skipSpace_more more rest with ⟨hx, hy⟩ | ⟨c, rest, hx, hy⟩
    · rw [hx, hy]
      refine .inr ⟨⟨_, rfl⟩, fun hblank => ?_⟩
      rw [(skipSpace_eq_nil_iff more).mpr hblank]
      exact ⟨_, rfl⟩
    · rw [hx, hy]
      dsimp only
      split
      · exact .ok _ _
      split
      · exact .afterSpace (hnil v) (hnext · v) rest
      · exact .error _ _
  · rw [hx]
    refine .inr ⟨⟨h, rfl⟩, fun hblank => ?_⟩
    obtain ⟨k, hk⟩ := hy hblank
    rw [hk]
    exact ⟨k, rfl⟩

variable (hmore : Stops more)

include hmore hitems hfields in
theorem readValue_step (cs : List Char) :
    Trails more (readValue (fuel + 1) cs) (readValue (fuel + 1) (cs ++ more)) := by
  cases cs with
  | nil =>
    refine .inr ⟨readValue_nil _, fun _ => ?_⟩
    cases more with
    | nil => exact readValue_nil _
    | cons c more => exact readValue_stop _ c (hmore c rfl) more
  | cons c cs =>
    by_cases hquote : c = '"'
    · subst hquote
      exact (readString_trails hmore cs).map Json.str
    by_cases hlist : c = '['
    · subst hlist
      rw [List.cons_append, readValue_list, readValue_list]
      exact bracketed_trails _ _ _ (readItems_nil fuel []) (hitems · []) cs
    by_cases hobject : c = '\x7b'
    · subst hobject
      rw [List.cons_append, readValue_object, readValue_object]
      exact bracketed_trails _ _ _ (readFields_nil fuel []) (hfields · []) cs
    · have hscalar := readScalar_trails hmore (c :: cs)
      simpa [readValue, hquote, hlist, hobject] using hscalar

include hvalue hitems in
theorem readItems_step (cs : List Char) (acc : List Json) :
    Trails more (readItems (fuel + 1) cs acc) (readItems (fuel + 1) (cs ++ more) acc) := by
  rw [readItems_succ, readItems_succ]
  exact valueThen_trails fuel hvalue _ _ _ (fun v => readItems_nil fuel (v :: acc))
    (fun cs v => hitems cs (v :: acc)) cs

include hmore hvalue hfields in
theorem readFields_step (cs : List Char) (acc : List (String × Json)) :
    Trails more (readFields (fuel + 1) cs acc) (readFields (fuel + 1) (cs ++ more) acc) := by
  cases cs with
  | nil =>
    have hall : ∀ d ∈ stops, ∀ rest, Refused (readFields (fuel + 1) (d :: rest) acc) := by
      simp [stops, readFields, Refused]
    refine .inr ⟨⟨_, rfl⟩, fun _ => ?_⟩
    cases more with
    | nil => exact ⟨_, rfl⟩
    | cons d more => exact hall d (hmore d rfl) more
  | cons c cs =>
    by_cases hquote : c = '"'
    case neg => simpa [readFields, hquote] using Trails.error _ _
    subst hquote
    rw [List.cons_append]
    rcases readString_trails hmore cs with ⟨key, after, hkey, hkey'⟩ | ⟨⟨h, hx⟩, hy⟩
    case inr =>
      refine .inr ⟨⟨h, by rw [readFields, hx]⟩, fun hblank => ?_⟩
      obtain ⟨k, hk⟩ := hy hblank
      exact ⟨k, by rw [readFields, hk]⟩
    rcases skipSpace_more more after with ⟨hx, hy⟩ | ⟨d, left, hx, hy⟩
    · refine .inr ⟨⟨_, by simp only [readFields, hkey, hx]; rfl⟩, fun hblank => ?_⟩
      rw [(skipSpace_eq_nil_iff more).mpr hblank] at hy
      exact ⟨_, by simp only [readFields, hkey', hy]; rfl⟩
    by_cases hcolon : d = ':'
    · subst hcolon
      rw [readFields_of_key fuel cs after left key acc hkey hx,
        readFields_of_key fuel _ _ (left ++ more) key acc hkey' hy]
      apply Trails.afterSpace
      · exact valueThen_nil fuel _ _ _
      · exact valueThen_trails fuel hvalue _ _ _ (fun v => readFields_nil fuel ((key, v) :: acc))
          (fun cs v => hfields cs ((key, v) :: acc))
    · simpa [readFields, hkey, hkey', hx, hy, hcolon] using Trails.error _ _

end

variable (hmore : Stops more)
include hmore

/-- With the same fuel, the readers do the same with more behind a text as without. -/
theorem read_trails (fuel : Nat) :
    (∀ cs, Trails more (readValue fuel cs) (readValue fuel (cs ++ more))) ∧
      (∀ cs acc, Trails more (readItems fuel cs acc) (readItems fuel (cs ++ more) acc)) ∧
      ∀ cs acc, Trails more (readFields fuel cs acc) (readFields fuel (cs ++ more) acc) := by
  induction fuel with
  | zero => exact ⟨fun _ => .error _ _, fun _ _ => .error _ _, fun _ _ => .error _ _⟩
  | succ fuel ih =>
    obtain ⟨hvalue, hitems, hfields⟩ := ih
    exact ⟨readValue_step fuel hitems hfields hmore, readItems_step fuel hvalue hitems,
      readFields_step fuel hvalue hfields hmore⟩

/-- The value of a document is read wherever the document stands. -/
theorem readValue_inside (cs : List Char) (v : Json) (h : readDocument cs = .ok v) :
    ∃ fuel rest, readValue fuel (skipSpace (cs ++ more)) = .ok (v, rest ++ more) ∧ Blank rest := by
  obtain ⟨-, fuel, rest, hread, hrest⟩ := (readDocument_eq_ok_iff cs v).mp h
  refine ⟨fuel, rest, ?_, (skipSpace_eq_nil_iff rest).mp hrest⟩
  rcases Trails.afterSpace (readValue_nil fuel) (read_trails hmore fuel).1 cs with
    ⟨w, left, hx, hy⟩ | ⟨⟨k, hx⟩, -⟩
  · cases hread.symm.trans hx
    exact hy
  · cases hread.symm.trans hx

end

theorem blank_append (cs ds : List Char) : Blank (cs ++ ds) ↔ Blank cs ∧ Blank ds := by
  simp [Blank, or_imp, forall_and]

/-- White space at the end makes no difference to what a text means. -/
theorem readDocument_trailing (cs space : List Char) (hspace : Blank space) (v : Json) :
    readDocument (cs ++ space) = .ok v ↔ readDocument cs = .ok v := by
  have hmark : (cs ++ space).head? ≠ some '\ufeff' ↔ cs.head? ≠ some '\ufeff' := by
    cases cs with
    | nil =>
      refine iff_of_true ?_ nofun
      intro hhead
      exact absurd (hspace _ (List.mem_of_mem_head? hhead)) (by decide)
    | cons c cs => exact Iff.rfl
  have hstops := hspace.stops
  rw [readDocument_eq_ok_iff, readDocument_eq_ok_iff, hmark]
  refine and_congr_right fun _ => exists_congr fun fuel => ?_
  simp only [skipSpace_eq_nil_iff]
  have htrails := Trails.afterSpace (readValue_nil fuel) (read_trails hstops fuel).1 cs
  constructor
  · rintro ⟨rest, hread, hrest⟩
    rcases htrails with ⟨w, left, hx, hy⟩ | ⟨-, hy⟩
    · cases hread.symm.trans hy
      exact ⟨left, hx, ((blank_append left space).mp hrest).1⟩
    · obtain ⟨k, hy⟩ := hy hspace
      cases hread.symm.trans hy
  · rintro ⟨rest, hread, hrest⟩
    rcases htrails with ⟨w, left, hx, hy⟩ | ⟨⟨h, hx⟩, -⟩
    · cases hread.symm.trans hx
      exact ⟨rest ++ space, hy, (blank_append rest space).mpr ⟨hrest, hspace⟩⟩
    · cases hread.symm.trans hx

theorem readValue_mark (fuel : Nat) (cs : List Char) :
    Refused (readValue fuel ('\ufeff' :: cs)) := by
  cases fuel with
  | zero => exact ⟨_, rfl⟩
  | succ fuel =>
    simp [readValue, readScalar, readConstant?, constants, readNumber, readMagnitude, wholePart?,
      isDigit, Refused]

theorem skipSpace_blank (space cs : List Char) (hspace : Blank space) :
    skipSpace (space ++ cs) = skipSpace cs :=
  List.dropWhile_append_of_pos hspace

/-- White space in front makes none either. -/
theorem readDocument_leading (space cs : List Char) (hspace : Blank space) (v : Json) :
    readDocument (space ++ cs) = .ok v ↔ readDocument cs = .ok v := by
  rw [readDocument_eq_ok_iff, readDocument_eq_ok_iff, skipSpace_blank space cs hspace]
  refine and_congr_left ?_
  rintro ⟨fuel, rest, hread, -⟩
  have hmark : cs.head? ≠ some '\ufeff' := by
    intro hhead
    obtain ⟨tail, rfl⟩ := List.head?_eq_some_iff.mp hhead
    obtain ⟨h, hrefused⟩ := readValue_mark fuel tail
    rw [skipSpace, List.dropWhile_cons_of_neg (by decide)] at hread
    cases hread.symm.trans hrefused
  refine iff_of_true ?_ hmark
  cases space with
  | nil => exact hmark
  | cons c space =>
    intro hhead
    obtain rfl : c = '\ufeff' := Option.some.inj hhead
    exact absurd (hspace _ (List.mem_cons_self ..)) (by decide)

theorem read_feed (cs : List Char) (v : Json) :
    read (String.ofList (cs ++ ['\n'])) = .ok v ↔ read (String.ofList cs) = .ok v := by
  rw [read_eq_ok_iff, read_eq_ok_iff, String.toList_ofList, String.toList_ofList]
  exact readDocument_trailing cs ['\n'] (by decide) v

end DocNavigation.Json
