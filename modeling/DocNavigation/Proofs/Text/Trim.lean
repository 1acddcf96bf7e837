import DocNavigation.Text.Lines
import Mathlib.Data.List.DropRight

/-!
Trimming. What was trimmed has no white space at its two ends, so trimming it again changes nothing.
-/

namespace DocNavigation.Text

theorem trimLeft_of_head (c : Char) (cs : List Char) (hc : isBlank c = false) :
    trimLeft (c :: cs) = c :: cs := by
  rw [trimLeft, List.dropWhile_cons_of_neg (by simp [hc])]

theorem trim_of_ends (c d : Char) (cs : List Char) (hc : isBlank c = false)
    (hd : isBlank d = false) : trimRight (trimLeft (c :: (cs ++ [d]))) = c :: (cs ++ [d]) := by
  have hback : (c :: (cs ++ [d])).reverse = d :: (c :: cs).reverse := by simp
  rw [trimLeft_of_head c _ hc, trimRight, hback, List.dropWhile_cons_of_neg (by simp [hd]), ← hback,
    List.reverse_reverse]

theorem head_trimLeft (cs : List Char) (c : Char) (rest : List Char) (h : trimLeft cs = c :: rest) :
    isBlank c = false := by
  rw [trimLeft] at h
  have hnot := List.dropWhile_get_zero_not isBlank cs (by simp [h])
  simpa [h] using hnot

theorem isPrefix_trimRight (cs : List Char) : trimRight cs <+: cs :=
  List.rdropWhile_prefix isBlank cs

theorem trimRight_trimRight (cs : List Char) : trimRight (trimRight cs) = trimRight cs :=
  List.rdropWhile_idempotent isBlank cs

/-- Trimming at the end leaves the beginning, unless nothing is left. -/
theorem trimLeft_trimRight_trimLeft (cs : List Char) :
    trimLeft (trimRight (trimLeft cs)) = trimRight (trimLeft cs) := by
  cases hleft : trimRight (trimLeft cs) with
  | nil => rfl
  | cons c rest =>
    obtain ⟨more, hmore⟩ := isPrefix_trimRight (trimLeft cs)
    rw [hleft, List.cons_append] at hmore
    exact trimLeft_of_head c rest (head_trimLeft cs c _ hmore.symm)

theorem toList_trim (s : String) : (trim s).toList = trimRight (trimLeft s.toList) :=
  String.toList_ofList

/-- A text that begins with something to be seen begins with it when it is trimmed. -/
theorem head_trim (s : String) (c : Char) (cs : List Char) (hs : s.toList = c :: cs)
    (hc : isBlank c = false) : ∃ rest, (trim s).toList = c :: rest := by
  rw [toList_trim, hs, trimLeft_of_head c cs hc]
  obtain ⟨more, hmore⟩ := isPrefix_trimRight (c :: cs)
  cases htrim : trimRight (c :: cs) with
  | nil =>
    have hall := List.rdropWhile_eq_nil_iff.mp (htrim : (c :: cs).rdropWhile isBlank = [])
    exact absurd (hall c (List.mem_cons_self ..)) (by simp [hc])
  | cons d rest =>
    rw [htrim, List.cons_append, List.cons.injEq] at hmore
    exact ⟨rest, by rw [hmore.1]⟩

theorem trim_trim (s : String) : trim (trim s) = trim s := by
  rw [← String.toList_inj, toList_trim, toList_trim, trimLeft_trimRight_trimLeft,
    trimRight_trimRight]

/-- The items of a list that commas divide are the pieces with more than white space in them. -/
theorem mem_commaSeparated (s item : String) :
    item ∈ commaSeparated s ↔ item ≠ "" ∧ ∃ piece ∈ split ',' s, trim piece = item := by
  simp [commaSeparated, and_comm]

end DocNavigation.Text
