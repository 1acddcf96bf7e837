import DocNavigation.Json.Read
import Mathlib.Data.List.TakeDrop

/-!
Reading needs no more fuel than there are characters. Every reader leaves less than it was given,
and what it gives depends on the fuel in nothing else than that there is enough.
-/

namespace DocNavigation.Json

/-- Less is left of a text than there was. -/
def Consumes {α : Type} (cs : List Char) (x : Reading α) : Prop :=
  ∀ a rest, x = .ok (a, rest) → rest.length < cs.length

theorem stringBody_consumes (opening : Nat) (cs : List Char) (skip : Nat) (acc : List Char) :
    Consumes cs (stringBody opening cs skip acc) := by
  intro a rest h
  induction cs generalizing skip acc with
  | nil => cases h
  | cons c cs ih =>
    have hstep : ∀ skip acc, stringBody opening cs skip acc = .ok (a, rest) →
        rest.length < (c :: cs).length := by
      intro skip acc h
      exact Nat.lt_trans (ih skip acc h) (Nat.lt_succ_self _)
    cases skip with
    | succ skip => exact hstep skip acc h
    | zero =>
      unfold stringBody at h
      split at h
      · rw [Prod.mk.inj (Except.ok.inj h) |>.2]
        exact Nat.lt_succ_self _
      split at h
      · split at h
        · cases h
        split at h
        · split at h
          · cases h
          · exact hstep _ _ h
        · split at h
          · cases h
          · exact hstep _ _ h
      split at h
      · cases h
      · exact hstep _ _ h

theorem readString_consumes (cs : List Char) : Consumes cs (readString cs) := by
  intro s rest h
  rw [readString] at h
  cases hbody : stringBody (cs.length + 1) cs 0 [] with
  | error e =>
    rw [hbody] at h
    cases h
  | ok r =>
    rw [hbody] at h
    cases h
    exact stringBody_consumes _ cs 0 [] _ _ hbody

theorem span_length (cs : List Char) : (cs.span isDigit).2.length ≤ cs.length := by
  rw [List.span_eq_takeWhile_dropWhile]
  exact (List.dropWhile_suffix isDigit).length_le

theorem wholePart?_length (cs : List Char) (r : List Char × List Char)
    (h : wholePart? cs = some r) : r.2.length < cs.length := by
  unfold wholePart? at h
  split at h
  · cases h
    exact Nat.lt_succ_self _
  · split at h
    case isTrue hc =>
      cases h
      rw [List.span_eq_takeWhile_dropWhile, List.dropWhile_cons_of_pos hc]
      exact Nat.lt_succ_of_le (List.dropWhile_suffix isDigit).length_le
    · cases h
  · cases h

theorem fractionPart_length (cs : List Char) : (fractionPart cs).2.length ≤ cs.length := by
  unfold fractionPart
  split
  · split
    · exact Nat.le_trans (span_length _) (Nat.le_succ _)
    · exact Nat.le_refl _
  · exact Nat.le_refl _

theorem exponentDigits_length (negative : Bool) (cs : List Char) (r : Int × List Char)
    (h : exponentDigits negative cs = some r) : r.2.length ≤ cs.length := by
  have hspan := span_length cs
  unfold exponentDigits at h
  split at h
  · cases h
  case h_2 ds rest _ hds =>
    rw [hds] at hspan
    cases h
    exact hspan

theorem exponentPart?_length (cs : List Char) (r : Int × List Char)
    (h : exponentPart? cs = some r) : r.2.length ≤ cs.length := by
  unfold exponentPart? at h
  split at h
  · split at h
    · split at h
      · exact Nat.le_add_right_of_le (Nat.le_add_right_of_le (exponentDigits_length _ _ _ h))
      · exact Nat.le_add_right_of_le (Nat.le_add_right_of_le (exponentDigits_length _ _ _ h))
      · exact Nat.le_add_right_of_le (exponentDigits_length _ _ _ h)
    · cases h
  · cases h

theorem readMagnitude_consumes (negative : Bool) (left : Nat) (cs : List Char) :
    Consumes cs (readMagnitude negative left cs) := by
  intro v rest h
  unfold readMagnitude at h
  split at h
  · cases h
  case h_2 whole after hwhole =>
    have hlength := wholePart?_length _ _ hwhole
    have hfraction := fractionPart_length after
    have hexponent := exponentPart?_length (fractionPart after).2
    dsimp only at h hlength
    split at h
    · split at h
      · cases h
      · cases h
        omega
    · cases hpart : exponentPart? (fractionPart after).2 with
      | none =>
        rw [hpart] at h
        cases h
        dsimp only [Option.getD]
        omega
      | some e =>
        rw [hpart] at h
        have hpower := hexponent e hpart
        cases h
        dsimp only [Option.getD]
        omega

theorem readNumber_consumes (cs : List Char) : Consumes cs (readNumber cs) := by
  intro v rest h
  unfold readNumber at h
  split at h
  · exact Nat.lt_succ_of_lt (readMagnitude_consumes _ _ _ v rest h)
  · exact readMagnitude_consumes _ _ _ v rest h

theorem readConstant?_length (cs : List Char) (r : Json × List Char)
    (h : readConstant? cs = some r) : r.2.length < cs.length := by
  obtain ⟨e, he, hread⟩ := List.exists_of_findSome?_eq_some h
  have hword : 0 < e.1.length := by
    have hall : ∀ e ∈ constants, 0 < e.1.length := by decide
    exact hall e he
  dsimp only at hread
  split at hread
  case isTrue hstart =>
    have hlength : e.1.length ≤ cs.length := (List.isPrefixOf_iff_prefix.mp hstart).length_le
    cases hread
    rw [List.length_drop]
    omega
  · cases hread

theorem readScalar_consumes (cs : List Char) : Consumes cs (readScalar cs) := by
  intro v rest h
  unfold readScalar at h
  split at h
  case h_1 r hconstant =>
    cases h
    exact readConstant?_length cs (v, rest) hconstant
  · exact readNumber_consumes cs v rest h

theorem skipSpace_length (cs : List Char) : (skipSpace cs).length ≤ cs.length :=
  (List.dropWhile_suffix isSpace).length_le

theorem skipSpace_cons_length (cs : List Char) (c : Char) (rest : List Char)
    (h : skipSpace cs = c :: rest) : rest.length < cs.length := by
  have hlength := skipSpace_length cs
  rw [h] at hlength
  exact hlength

/-- What a reader gives with this fuel uses up characters, and it gives the same with any fuel that
is not less than the number of the characters used up. -/
def Settles (x : Nat → Reading Json) (cs : List Char) (fuel : Nat) : Prop :=
  ∀ v rest, x fuel = .ok (v, rest) →
    rest.length < cs.length ∧ ∀ more, cs.length ≤ more + rest.length → x more = .ok (v, rest)

/-- A reading uses up a character, so that no fuel at all is never enough for it. -/
theorem Settles.of_succ (x : Nat → Reading Json) (cs : List Char) (fuel : Nat)
    (h : ∀ v rest, x fuel = .ok (v, rest) → rest.length < cs.length ∧
      ∀ more, cs.length ≤ more + 1 + rest.length → x (more + 1) = .ok (v, rest)) :
    Settles x cs fuel := by
  intro v rest hx
  obtain ⟨hless, hmore⟩ := h v rest hx
  refine ⟨hless, ?_⟩
  intro more hfuel
  cases more with
  | zero => omega
  | succ more => exact hmore more hfuel

/-- A reader that does nothing with its fuel but ask for some. -/
theorem Settles.of_consumes (x : Nat → Reading Json) (y : Reading Json) (cs : List Char)
    (fuel : Nat) (hx : ∀ fuel, x (fuel + 1) = y) (hy : Consumes cs y) : Settles x cs (fuel + 1) := by
  apply Settles.of_succ
  intro v rest h
  rw [hx] at h
  refine ⟨hy v rest h, ?_⟩
  intro more _
  rw [hx, h]

theorem Settles.step (x y : Nat → Reading Json) (c : Char) (cs : List Char) (fuel : Nat)
    (hx : ∀ fuel, x (fuel + 1) = y fuel) (hy : Settles y cs fuel) :
    Settles x (c :: cs) (fuel + 1) := by
  apply Settles.of_succ
  intro v rest h
  rw [hx] at h
  obtain ⟨hless, hmore⟩ := hy v rest h
  rw [List.length_cons]
  refine ⟨by omega, ?_⟩
  intro more hfuel
  rw [hx]
  exact hmore more (by omega)

/-- What follows an opening character: the closing one, or the parts. -/
def bracketed (closing : Char) (empty : Json) (parts : List Char → Reading Json) (cs : List Char) :
    Reading Json :=
  match skipSpace cs with
  | [] => parts []
  | c :: rest => if c = closing then .ok (empty, rest) else parts (c :: rest)

theorem readValue_list (fuel : Nat) (cs : List Char) : readValue (fuel + 1) ('[' :: cs) =
    bracketed ']' (.arr []) (readItems fuel · []) cs := by
  rw [readValue, bracketed]
  cases skipSpace cs with
  | nil => rfl
  | cons c rest =>
    by_cases hclose : c = ']'
    · subst hclose
      rfl
    · simp [hclose]

theorem readValue_object (fuel : Nat) (cs : List Char) : readValue (fuel + 1) ('\x7b' :: cs) =
    bracketed '\x7d' (.obj []) (readFields fuel · []) cs := by
  rw [readValue, bracketed]
  cases skipSpace cs with
  | nil => rfl
  | cons c rest =>
    by_cases hclose : c = '\x7d'
    · subst hclose
      rfl
    · simp [hclose]

theorem bracketed_settles (closing : Char) (empty : Json) (parts : Nat → List Char → Reading Json)
    (fuel : Nat) (hparts : ∀ cs, Settles (parts · cs) cs fuel) (cs : List Char) :
    Settles (fun fuel => bracketed closing empty (parts fuel) cs) cs fuel := by
  intro v rest h
  have hspace := skipSpace_length cs
  unfold bracketed at h ⊢
  cases hskip : skipSpace cs with
  | nil =>
    simp only [hskip] at h
    exact absurd (hparts [] v rest h).1 (Nat.not_lt_zero _)
  | cons c left =>
    have hleft := skipSpace_cons_length cs c left hskip
    simp only [hskip] at h hspace ⊢
    split at h
    case isTrue hclose =>
      cases h
      exact ⟨hleft, fun _ _ => if_pos hclose⟩
    case isFalse hclose =>
      obtain ⟨hless, hmore⟩ := hparts _ v rest h
      refine ⟨by omega, ?_⟩
      intro more hfuel
      rw [if_neg hclose]
      exact hmore more (by omega)

/-- A value and what follows it: the closing character, or a comma and what comes next. -/
def valueThen (closing : Char) (done : Json → Json) (next : Nat → List Char → Json → Reading Json)
    (fuel : Nat) (cs : List Char) : Reading Json :=
  match readValue fuel cs with
  | .error h => .error h
  | .ok (v, rest) =>
    match skipSpace rest with
    | [] => .error (.unexpected .comma 0)
    | c :: rest =>
      if c = closing then .ok (done v, rest)
      else if c = ',' then next fuel (skipSpace rest) v
      else .error (.unexpected .comma (rest.length + 1))

theorem readItems_succ (fuel : Nat) (cs : List Char) (acc : List Json) :
    readItems (fuel + 1) cs acc = valueThen ']' (fun v => .arr (v :: acc).reverse)
      (fun fuel cs v => readItems fuel cs (v :: acc)) fuel cs := by
  rw [readItems, valueThen]
  cases readValue fuel cs with
  | error h => rfl
  | ok r =>
    dsimp only
    cases skipSpace r.2 with
    | nil => rfl
    | cons c rest =>
      by_cases hclose : c = ']'
      · subst hclose
        rfl
      by_cases hcomma : c = ','
      · subst hcomma
        rfl
      · simp [hclose, hcomma]

/-- After its key and the colon a field is a value. -/
theorem readFields_of_key (fuel : Nat) (cs after left : List Char) (key : String)
    (acc : List (String × Json)) (hkey : readString cs = .ok (key, after))
    (hcolon : skipSpace after = ':' :: left) :
    readFields (fuel + 1) ('"' :: cs) acc =
      valueThen '\x7d' (fun v => .obj (putAll [] ((key, v) :: acc).reverse))
        (fun fuel cs v => readFields fuel cs ((key, v) :: acc)) fuel (skipSpace left) := by
  simp only [readFields, hkey, hcolon, valueThen]
  cases readValue fuel (skipSpace left) with
  | error h => rfl
  | ok r =>
    dsimp only
    cases skipSpace r.2 with
    | nil => rfl
    | cons c rest =>
      by_cases hclose : c = '\x7d'
      · subst hclose
        rfl
      by_cases hcomma : c = ','
      · subst hcomma
        rfl
      · simp [hclose, hcomma]

theorem readFields_ok (fuel : Nat) (cs : List Char) (acc : List (String × Json)) (v : Json)
    (rest : List Char) (h : readFields (fuel + 1) cs acc = .ok (v, rest)) :
    ∃ tail key after left, cs = '"' :: tail ∧ readString tail = .ok (key, after) ∧
      skipSpace after = ':' :: left := by
  unfold readFields at h
  split at h
  · split at h
    · cases h
    · split at h
      · exact ⟨_, _, _, _, rfl, ‹_›, ‹_›⟩
      · cases h
  · cases h

section
variable (fuel : Nat)
  (hvalue : ∀ cs, Settles (readValue · cs) cs fuel)
  (hitems : ∀ cs acc, Settles (readItems · cs acc) cs fuel)
  (hfields : ∀ cs acc, Settles (readFields · cs acc) cs fuel)

include hvalue in
theorem valueThen_settles (closing : Char) (done : Json → Json)
    (next : Nat → List Char → Json → Reading Json)
    (hnext : ∀ cs v, Settles (next · cs v) cs fuel) (cs : List Char) (v : Json) (rest : List Char)
    (h : valueThen closing done next fuel cs = .ok (v, rest)) : rest.length < cs.length ∧
      ∀ more, cs.length ≤ more + 1 + rest.length →
        valueThen closing done next more cs = .ok (v, rest) := by
  unfold valueThen at h
  split at h
  case h_1 => cases h
  case h_2 w after hread =>
    obtain ⟨hless, hmore⟩ := hvalue cs w after hread
    split at h
    case h_1 => cases h
    case h_2 c left hspace =>
      have hleft := skipSpace_cons_length after c left hspace
      have hskip := skipSpace_length left
      -- the closing character or the comma pays for the step that is missing
      have hagain : ∀ more, cs.length ≤ more + after.length → readValue more cs = .ok (w, after) :=
        hmore
      split at h
      case isTrue hclose =>
        cases h
        refine ⟨by omega, ?_⟩
        intro more hfuel
        simp only [valueThen, hagain more (by omega), hspace, if_pos hclose]
      case isFalse hclose =>
        split at h
        case isFalse => cases h
        case isTrue hcomma =>
          obtain ⟨hless', hmore'⟩ := hnext _ _ v rest h
          refine ⟨by omega, ?_⟩
          intro more hfuel
          simp only [valueThen, hagain more (by omega), hspace, if_neg hclose, if_pos hcomma]
          exact hmore' more (by omega)

include hitems hfields in
theorem readValue_settles (cs : List Char) : Settles (readValue · cs) cs (fuel + 1) := by
  cases cs with
  | nil =>
    intro v rest h
    cases h
  | cons c cs =>
    by_cases hquote : c = '"'
    · subst hquote
      refine .of_consumes _ ((readString cs).map fun r => (.str r.1, r.2)) _ fuel (fun _ => rfl) ?_
      intro v rest h
      cases hstring : readString cs with
      | error e =>
        rw [hstring] at h
        cases h
      | ok r =>
        rw [hstring] at h
        cases h
        exact Nat.lt_succ_of_lt (readString_consumes cs _ _ hstring)
    by_cases hlist : c = '['
    · subst hlist
      exact .step _ _ _ cs fuel (readValue_list · cs)
        (bracketed_settles _ _ (readItems · · []) fuel (hitems · []) cs)
    by_cases hobject : c = '\x7b'
    · subst hobject
      exact .step _ _ _ cs fuel (readValue_object · cs)
        (bracketed_settles _ _ (readFields · · []) fuel (hfields · []) cs)
    · refine .of_consumes _ (readScalar (c :: cs)) _ fuel ?_ (readScalar_consumes _)
      intro fuel
      simp [readValue, hquote, hlist, hobject]

include hvalue hitems in
theorem readItems_settles (cs : List Char) (acc : List Json) :
    Settles (readItems · cs acc) cs (fuel + 1) := by
  apply Settles.of_succ
  intro v rest h
  simp only [readItems_succ] at h ⊢
  exact valueThen_settles fuel hvalue _ _ _ (fun cs v => hitems cs (v :: acc)) cs v rest h

include hvalue hfields in
theorem readFields_settles (cs : List Char) (acc : List (String × Json)) :
    Settles (readFields · cs acc) cs (fuel + 1) := by
  apply Settles.of_succ
  intro v rest h
  obtain ⟨tail, key, after, left, rfl, hkey, hcolon⟩ := readFields_ok fuel cs acc v rest h
  have hafter := readString_consumes tail key after hkey
  have hleft := skipSpace_cons_length after _ left hcolon
  have hspace := skipSpace_length left
  simp only [readFields_of_key _ tail after left key acc hkey hcolon] at h ⊢
  obtain ⟨hless, hmore⟩ :=
    valueThen_settles fuel hvalue _ _ _ (fun cs v => hfields cs ((key, v) :: acc)) _ v rest h
  rw [List.length_cons]
  refine ⟨by omega, ?_⟩
  intro more hfuel
  exact hmore more (by omega)

end

theorem reads_settle (fuel : Nat) : (∀ cs, Settles (readValue · cs) cs fuel) ∧
    (∀ cs acc, Settles (readItems · cs acc) cs fuel) ∧
      ∀ cs acc, Settles (readFields · cs acc) cs fuel := by
  induction fuel with
  | zero =>
    refine ⟨?_, ?_, ?_⟩
    · intro cs v rest h
      cases h
    · intro cs acc v rest h
      cases h
    · intro cs acc v rest h
      cases h
  | succ fuel ih =>
    obtain ⟨hvalue, hitems, hfields⟩ := ih
    exact ⟨readValue_settles fuel hitems hfields, readItems_settles fuel hvalue hitems,
      readFields_settles fuel hvalue hfields⟩

/-- A value that is read with some fuel is read with as much as the text has characters. -/
theorem readValue_fuel (fuel more : Nat) (cs : List Char) (v : Json) (rest : List Char)
    (h : readValue fuel cs = .ok (v, rest)) (hmore : cs.length ≤ more) :
    readValue more cs = .ok (v, rest) :=
  ((reads_settle fuel).1 cs v rest h).2 more (Nat.le_add_right_of_le hmore)

/-- A document is a value between white space, whatever fuel it takes to read the value. -/
theorem readDocument_eq_ok_iff (cs : List Char) (v : Json) : readDocument cs = .ok v ↔
    cs.head? ≠ some '\ufeff' ∧
      ∃ fuel rest, readValue fuel (skipSpace cs) = .ok (v, rest) ∧ skipSpace rest = [] := by
  unfold readDocument
  split
  case isTrue hmark => simp [hmark]
  case isFalse hmark =>
    constructor
    · intro h
      dsimp only at h
      split at h
      · cases h
      case h_2 w rest hread =>
        split at h
        · cases h
          exact ⟨hmark, _, rest, hread, ‹_›⟩
        · cases h
    · rintro ⟨-, fuel, rest, hread, hrest⟩
      dsimp only
      rw [readValue_fuel fuel _ _ v rest hread (Nat.le_succ _)]
      simp only [hrest]

theorem read_eq_ok_iff (s : String) (v : Json) :
    read s = .ok v ↔ readDocument s.toList = .ok v := by
  rw [read]
  cases readDocument s.toList with
  | error e => exact ⟨nofun, nofun⟩
  | ok w =>
    constructor
    · intro h
      cases h
      rfl
    · intro h
      cases h
      rfl

end DocNavigation.Json
