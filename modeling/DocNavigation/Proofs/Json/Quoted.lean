import DocNavigation.Json.Read
import DocNavigation.Json.Write

/-!
Quoted texts. Whatever characters a text holds, reading its quoted form gives it back, and the
quoted form has no control character in it.
-/

namespace DocNavigation.Text

theorem hexValue?_hexDigit (n : Nat) (hn : n < 16) : hexValue? (hexDigit n) = some n := by
  have h : ∀ i : Fin 16, hexValue? (hexDigit i.val) = some i.val := by decide
  exact h ⟨n, hn⟩

theorem hexNumber?_hexDigits (width n : Nat) :
    hexNumber? (hexDigits width n) = some (n % Nat.pow 16 width) := by
  induction width generalizing n with
  | zero =>
    change some 0 = some (n % 1)
    rw [Nat.mod_one]
  | succ width ih =>
    have hd : hexValue? (hexDigit (n % 16)) = some (n % 16) :=
      hexValue?_hexDigit _ (Nat.mod_lt _ (by decide))
    have hn : 16 * (n / 16 % Nat.pow 16 width) + n % 16 = n % Nat.pow 16 (width + 1) := by
      change _ = n % (Nat.pow 16 width * 16)
      rw [Nat.mul_comm (Nat.pow 16 width), Nat.mod_mul]
      omega
    rw [hexDigits, hexNumber?, List.foldlM_append]
    change (hexNumber? (hexDigits width (n / 16)) >>= _) = _
    rw [ih, ← hn]
    simp [hd]

theorem hexDigits_length (width n : Nat) : (hexDigits width n).length = width := by
  induction width generalizing n with
  | zero => rfl
  | succ width ih => simp [hexDigits, ih]

theorem hexDigit_toNat (n : Nat) (hn : n < 16) : 48 ≤ (hexDigit n).toNat := by
  have h : ∀ i : Fin 16, 48 ≤ (hexDigit i.val).toNat := by decide
  exact h ⟨n, hn⟩

theorem hexDigits_toNat (width n : Nat) : ∀ c ∈ hexDigits width n, 48 ≤ c.toNat := by
  induction width generalizing n with
  | zero => simp [hexDigits]
  | succ width ih =>
    intro c hc
    rcases List.mem_append.mp hc with hc | hc
    · exact ih _ c hc
    · rw [List.mem_singleton.mp hc]
      exact hexDigit_toNat _ (Nat.mod_lt _ (by decide))

end DocNavigation.Text

namespace DocNavigation.Json

/-- A character is escaped by a letter, by its number, or not at all. -/
theorem escapedChar_cases (c : Char) :
    (∃ e, escapedChar c = ['\\', e] ∧ e ≠ 'u' ∧ 0x20 ≤ e.toNat ∧ simpleEscape? e = some c) ∨
    (escapedChar c = '\\' :: 'u' :: Text.hexDigits 4 c.toNat ∧ c.toNat < 0x20) ∨
    (escapedChar c = [c] ∧ c ≠ '"' ∧ c ≠ '\\' ∧ 0x20 ≤ c.toNat) := by
  by_cases hquote : c = '"'
  · exact .inl ⟨'"', by subst hquote; decide⟩
  by_cases hback : c = '\\'
  · exact .inl ⟨'\\', by subst hback; decide⟩
  by_cases hfeed : c = '\n'
  · exact .inl ⟨'n', by subst hfeed; decide⟩
  by_cases hreturn : c = '\r'
  · exact .inl ⟨'r', by subst hreturn; decide⟩
  by_cases htab : c = '\t'
  · exact .inl ⟨'t', by subst htab; decide⟩
  by_cases hform : c = '\x0c'
  · exact .inl ⟨'f', by subst hform; decide⟩
  by_cases hbell : c = '\x08'
  · exact .inl ⟨'b', by subst hbell; decide⟩
  by_cases hlow : c.toNat < 0x20
  · refine .inr (.inl ⟨?_, hlow⟩)
    simp [escapedChar, hquote, hback, hfeed, hreturn, htab, hform, hbell, hlow]
  · refine .inr (.inr ⟨?_, hquote, hback, by omega⟩)
    simp [escapedChar, hquote, hback, hfeed, hreturn, htab, hform, hbell, hlow]

theorem unicodeEscape_hexDigits (n : Nat) (hn : n < 0x20) (rest : List Char) (hr : rest ≠ []) :
    unicodeEscape (Text.hexDigits 4 n ++ rest) = .ok (Char.ofNat n, 4) := by
  have hlen := Text.hexDigits_length 4 n
  have hpos : 0 < rest.length := List.length_pos_iff.mpr hr
  have hlong : ¬ (Text.hexDigits 4 n ++ rest).length ≤ 4 := by
    rw [List.length_append]
    omega
  have hvalue : Text.hexNumber? (Text.hexDigits 4 n) = some n := by
    rw [Text.hexNumber?_hexDigits, Nat.mod_eq_of_lt (Nat.lt_trans hn (by decide))]
  have hhigh : isHighSurrogate n = false := by simp [isHighSurrogate]; omega
  have hchar : charOfCode n = Char.ofNat n := by
    rw [charOfCode, if_neg (by omega)]
  rw [unicodeEscape, if_neg hlong, List.take_left' hlen, List.drop_left' hlen, hvalue]
  dsimp only
  split
  · simp [hhigh, hchar]
  · rw [hchar]

theorem stringBody_skip (opening : Nat) (used rest acc : List Char) :
    stringBody opening (used ++ rest) used.length acc = stringBody opening rest 0 acc := by
  induction used with
  | nil => rfl
  | cons c used ih => exact ih

/-- One step of reading undoes one step of writing. The text cannot end there, since the closing
quote is still to come. -/
theorem stringBody_escapedChar (opening : Nat) (c : Char) (rest acc : List Char) (hr : rest ≠ []) :
    stringBody opening (escapedChar c ++ rest) 0 acc = stringBody opening rest 0 (c :: acc) := by
  rcases escapedChar_cases c with ⟨e, he, hu, -, hc⟩ | ⟨he, hlow⟩ | ⟨he, hquote, hback, hlow⟩
  · simp [he, stringBody, hu, hc]
  · -- the reader takes the whole escape at its first character and skips the others
    have hcode := unicodeEscape_hexDigits c.toNat hlow rest hr
    have hskip := stringBody_skip opening ('u' :: Text.hexDigits 4 c.toNat) rest (c :: acc)
    rw [List.length_cons, Text.hexDigits_length] at hskip
    rw [Char.ofNat_toNat] at hcode
    rw [← hskip]
    simp [he, stringBody, hcode]
  · simp [he, stringBody, hquote, hback, Nat.not_lt.mpr hlow]

theorem stringBody_escaped (opening : Nat) (cs rest acc : List Char) :
    stringBody opening (cs.flatMap escapedChar ++ '"' :: rest) 0 acc =
      .ok (acc.reverse ++ cs, rest) := by
  induction cs generalizing acc with
  | nil => simp [stringBody]
  | cons c cs ih =>
    rw [List.flatMap_cons, List.append_assoc, stringBody_escapedChar _ _ _ _ (by simp), ih]
    simp

theorem toList_quotedString (s : String) :
    (quotedString s).toList = '"' :: (s.toList.flatMap escapedChar ++ ['"']) := by
  simp [quotedString]

/-- A quoted text is read back whatever comes after it. -/
theorem readString_quoted (s : String) (rest : List Char) :
    readString (s.toList.flatMap escapedChar ++ '"' :: rest) = .ok (s, rest) := by
  rw [readString, stringBody_escaped]
  simp [Except.map]

theorem escapedChar_printable (c : Char) : ∀ d ∈ escapedChar c, 0x20 ≤ d.toNat := by
  intro d hd
  rcases escapedChar_cases c with ⟨e, he, -, hprint, -⟩ | ⟨he, -⟩ | ⟨he, -, -, hprint⟩
  · rw [he, List.mem_cons, List.mem_singleton] at hd
    rcases hd with rfl | rfl
    · decide
    · exact hprint
  · rw [he, List.mem_cons, List.mem_cons] at hd
    rcases hd with rfl | rfl | hd
    · decide
    · decide
    · exact Nat.le_trans (by decide) (Text.hexDigits_toNat 4 _ d hd)
  · rw [he, List.mem_singleton] at hd
    rw [hd]
    exact hprint

theorem quotedString_printable (s : String) : ∀ c ∈ (quotedString s).toList, 0x20 ≤ c.toNat := by
  intro c hc
  rw [toList_quotedString, List.mem_cons, List.mem_append, List.mem_singleton] at hc
  rcases hc with rfl | hc | rfl
  · decide
  · obtain ⟨d, -, hd⟩ := List.mem_flatMap.mp hc
    exact escapedChar_printable d c hd
  · decide

end DocNavigation.Json
