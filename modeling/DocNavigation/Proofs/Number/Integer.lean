import DocNavigation.Number.Integer
import Mathlib.Data.List.Basic

/-!
Reading texts that are spelled in digits only. A typographic digit has no place in a numeral, and a
numeral may be too long.
-/

namespace DocNavigation.Number

theorem groupedDigits?_decimal (cs : List Char) (afterDigit : Bool) (acc : List Nat)
    (hcs : ∀ c ∈ cs, Text.isDecimal c = true) (hsome : afterDigit = true ∨ cs ≠ []) :
    ∃ digits, groupedDigits? cs afterDigit acc = some digits ∧
      digits.length = cs.length + acc.length := by
  induction cs generalizing afterDigit acc with
  | nil =>
    obtain rfl := hsome.resolve_right (not_not_intro rfl)
    exact ⟨acc.reverse, rfl, by simp⟩
  | cons c cs ih =>
    rw [List.forall_mem_cons] at hcs
    obtain ⟨d, hd⟩ := Option.isSome_iff_exists.mp hcs.1
    have hline : c ≠ '_' := by
      rintro rfl
      exact absurd hcs.1 (by decide)
    obtain ⟨digits, hdigits, hlength⟩ := ih true (d :: acc) hcs.2 (.inl rfl)
    refine ⟨digits, ?_, ?_⟩
    · rw [groupedDigits?, if_neg hline, hd]
      exact hdigits
    · rw [hlength, List.length_cons, List.length_cons]
      omega

theorem decimal_of_groupedDigits? (cs : List Char) (afterDigit : Bool) (acc digits : List Nat)
    (h : groupedDigits? cs afterDigit acc = some digits) :
    ∀ c ∈ cs, c = '_' ∨ Text.isDecimal c = true := by
  induction cs generalizing afterDigit acc with
  | nil => exact nofun
  | cons c cs ih =>
    rw [List.forall_mem_cons]
    rw [groupedDigits?] at h
    split at h
    case isTrue hline =>
      split at h
      · exact ⟨.inl hline, ih _ _ h⟩
      · cases h
    case isFalse =>
      split at h
      case h_1 d hd => exact ⟨.inr (Option.isSome_iff_exists.mpr ⟨d, hd⟩), ih _ _ h⟩
      case h_2 => cases h

theorem readInteger_unsigned (s : String) (htrim : Text.trim s = s) (hminus : '-' ∉ s.toList)
    (hplus : '+' ∉ s.toList) :
    readInteger s = (groupedDigits? s.toList false []).elim (.error .notANumber)
      fun digits => if maxDigits < digits.length then .error (.tooLong digits.length)
        else .ok (valueOfDigits digits : Int) := by
  have hlist : Text.trimRight (Text.trimLeft s.toList) = s.toList := by
    rw [← String.toList_ofList (l := Text.trimRight (Text.trimLeft s.toList))]
    exact congrArg String.toList htrim
  rw [readInteger, hlist]
  split
  case h_1 negative cs hsign =>
    split at hsign
    case h_1 heq => exact absurd (heq ▸ List.mem_cons_self ..) hminus
    case h_2 heq => exact absurd (heq ▸ List.mem_cons_self ..) hplus
    case h_3 =>
      cases hsign
      cases groupedDigits? s.toList false [] <;> rfl

/-- Digits are a numeral just in case all of them are decimal and they are not too many. -/
theorem readInteger_digits (s : String) (htrim : Text.trim s = s) (hsome : s ≠ "")
    (hdigits : ∀ c ∈ s.toList, Text.isDigitLike c = true) :
    (∃ n, readInteger s = .ok n) ↔
      (∀ c ∈ s.toList, Text.isDecimal c = true) ∧ s.length ≤ maxDigits := by
  have hnil : s.toList ≠ [] := mt String.toList_eq_nil_iff.mp hsome
  -- a digit is no sign
  rw [readInteger_unsigned s htrim (fun hc => absurd (hdigits _ hc) (by decide))
    fun hc => absurd (hdigits _ hc) (by decide)]
  constructor
  · rintro ⟨n, hn⟩
    cases hgrouped : groupedDigits? s.toList false [] with
    | none =>
      rw [hgrouped] at hn
      cases hn
    | some digits =>
      have hdecimal : ∀ c ∈ s.toList, Text.isDecimal c = true := fun c hc =>
        (decimal_of_groupedDigits? _ _ _ _ hgrouped c hc).resolve_left fun hline =>
          absurd (hdigits c hc) (by rw [hline]; decide)
      obtain ⟨digits', hgrouped', hlength⟩ :=
        groupedDigits?_decimal s.toList false [] hdecimal (.inr hnil)
      obtain rfl := Option.some.inj (hgrouped.symm.trans hgrouped')
      rw [List.length_nil, Nat.add_zero, String.length_toList] at hlength
      refine ⟨hdecimal, Nat.not_lt.mp fun hlong => ?_⟩
      rw [hgrouped, Option.elim_some, if_pos (hlength ▸ hlong)] at hn
      cases hn
  · rintro ⟨hdecimal, hshort⟩
    obtain ⟨digits, hgrouped, hlength⟩ :=
      groupedDigits?_decimal s.toList false [] hdecimal (.inr hnil)
    rw [List.length_nil, Nat.add_zero, String.length_toList] at hlength
    refine ⟨valueOfDigits digits, ?_⟩
    rw [hgrouped, Option.elim_some, if_neg (Nat.not_lt.mpr (hlength ▸ hshort))]

end DocNavigation.Number
