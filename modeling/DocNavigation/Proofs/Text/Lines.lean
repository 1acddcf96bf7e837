import DocNavigation.Text.Lines
import Mathlib.Data.List.Forall2

/-!
Cutting texts into lines and putting them together again.
-/

namespace DocNavigation.Text

theorem pieces_eq_splitOn (sep : Char) (cs : List Char) : pieces sep cs = cs.splitOn sep := by
  induction cs with
  | nil => rfl
  | cons c cs ih =>
    obtain ⟨w, ws, hw⟩ := List.exists_cons_of_ne_nil (List.splitOn_ne_nil sep cs)
    rw [List.splitOn_cons_eq_if_modifyHead, hw]
    rw [hw] at ih
    simp only [pieces] at ih
    rw [pieces, List.foldr_cons, ih]
    by_cases hc : c = sep <;> simp [hc]

theorem pieces_append (sep : Char) (cs cs' : List Char) :
    pieces sep (cs ++ sep :: cs') = pieces sep cs ++ pieces sep cs' := by
  rw [pieces_eq_splitOn, pieces_eq_splitOn, pieces_eq_splitOn]
  exact List.splitOn_append_cons_of_beq cs cs' (by simp)

/-- A separator begins a new piece, and any other character goes to the first piece. -/
theorem pieces_cons (sep c : Char) (cs : List Char) : ∃ w ws, pieces sep cs = w :: ws ∧
    pieces sep (c :: cs) = if c = sep then [] :: w :: ws else (c :: w) :: ws := by
  obtain ⟨w, ws, hw⟩ : ∃ w ws, pieces sep cs = w :: ws := by
    rw [pieces_eq_splitOn]
    exact List.exists_cons_of_ne_nil (List.splitOn_ne_nil sep cs)
  refine ⟨w, ws, hw, ?_⟩
  simp only [pieces] at hw
  rw [pieces, List.foldr_cons, hw]

/-- The last piece of a text goes to its end. -/
theorem pieces_snoc (sep c : Char) (cs : List Char) (hc : c ≠ sep) :
    ∃ init w, pieces sep (cs ++ [c]) = init ++ [w ++ [c]] := by
  induction cs with
  | nil =>
    refine ⟨[], [], ?_⟩
    rw [pieces_eq_splitOn]
    exact List.splitOn_eq_singleton (by simpa using Ne.symm hc)
  | cons d cs ih =>
    obtain ⟨init, w, hpieces⟩ := ih
    obtain ⟨v, vs, hv, hcons⟩ := pieces_cons sep d (cs ++ [c])
    rw [List.cons_append, hcons]
    by_cases hd : d = sep
    · rw [if_pos hd, ← hv, hpieces]
      exact ⟨[] :: init, w, rfl⟩
    rw [if_neg hd]
    rw [hv] at hpieces
    cases init with
    | nil =>
      obtain ⟨rfl, rfl⟩ := List.cons.inj hpieces
      exact ⟨[], d :: w, rfl⟩
    | cons u init =>
      obtain ⟨rfl, rfl⟩ := List.cons.inj hpieces
      exact ⟨(d :: v) :: init, w, rfl⟩

theorem not_mem_of_mem_pieces (sep : Char) (cs : List Char) : ∀ l ∈ pieces sep cs, sep ∉ l := by
  induction cs with
  | nil =>
    intro l hl
    simp [List.mem_singleton.mp hl]
  | cons c cs ih =>
    obtain ⟨w, ws, hw, hcons⟩ := pieces_cons sep c cs
    rw [hw, List.forall_mem_cons] at ih
    rw [hcons]
    by_cases hc : c = sep
    · rw [if_pos hc, List.forall_mem_cons, List.forall_mem_cons]
      exact ⟨List.not_mem_nil, ih⟩
    · rw [if_neg hc, List.forall_mem_cons, List.mem_cons, not_or]
      exact ⟨⟨Ne.symm hc, ih.1⟩, ih.2⟩

section
variable {α : Type} (sep : α)

theorem intercalate_append (ls ms : List (List α)) (hls : ls ≠ []) (hms : ms ≠ []) :
    [sep].intercalate (ls ++ ms) = [sep].intercalate ls ++ sep :: [sep].intercalate ms := by
  induction ls with
  | nil => exact absurd rfl hls
  | cons l ls ih =>
    cases ls with
    | nil => simp [List.intercalate_cons_of_ne_nil hms]
    | cons k ls =>
      have ih := ih (by simp)
      simp only [List.cons_append, List.intercalate_cons_cons] at ih ⊢
      rw [ih]
      simp

theorem intercalate_snoc (ls : List (List α)) (l : List α) (hne : ls ≠ []) :
    [sep].intercalate (ls ++ [l]) = [sep].intercalate ls ++ sep :: l := by
  rw [intercalate_append sep ls [l] hne (by simp), List.intercalate_singleton]

theorem intercalate_replicate (count : Nat) (ls : List (List α)) (hne : ls ≠ []) :
    [sep].intercalate (List.replicate count [] ++ ls) =
      List.replicate count sep ++ [sep].intercalate ls := by
  induction count with
  | zero => rfl
  | succ count ih =>
    have hmore : List.replicate count [] ++ ls ≠ [] := by simp [hne]
    rw [List.replicate_succ, List.replicate_succ, List.cons_append,
      List.intercalate_cons_of_ne_nil hmore, ih]
    rfl

theorem mem_intercalate (ls : List (List α)) (a : α) (h : a ∈ [sep].intercalate ls) :
    a = sep ∨ ∃ l ∈ ls, a ∈ l := by
  induction ls with
  | nil => simp at h
  | cons l ls ih =>
    cases ls with
    | nil => exact .inr ⟨l, List.mem_singleton_self l, by simpa using h⟩
    | cons m ls =>
      rw [List.intercalate_cons_cons, List.mem_append, List.mem_append, List.mem_singleton] at h
      rcases h with (h | h) | h
      · exact .inr ⟨l, List.mem_cons_self .., h⟩
      · exact .inl h
      · rcases ih h with h | ⟨k, hk, h⟩
        · exact .inl h
        · exact .inr ⟨k, List.mem_cons_of_mem _ hk, h⟩

end

/-- Lines that are ended one by one are found again, with an empty rest after the last. -/
theorem pieces_ended (ls : List (List Char)) (h : ∀ l ∈ ls, '\n' ∉ l) (hne : ls ≠ []) :
    pieces '\n' (['\n'].intercalate ls ++ ['\n']) = ls ++ [[]] := by
  have hall : ∀ l ∈ ls ++ [[]], '\n' ∉ l := by
    intro l hl
    rcases List.mem_append.mp hl with hl | hl
    · exact h l hl
    · simp [List.mem_singleton.mp hl]
  rw [← intercalate_snoc '\n' ls [] hne, pieces_eq_splitOn,
    List.splitOn_intercalate '\n' hall (by simp)]

/-- Parts without the separator are what their joined form is cut into. -/
theorem split_join (sep : Char) (parts : List String) (hne : parts ≠ [])
    (hparts : ∀ s ∈ parts, sep ∉ s.toList) :
    split sep (join (String.singleton sep) parts) = parts := by
  have hjoined : (join (String.singleton sep) parts).toList =
      [sep].intercalate (parts.map String.toList) := by
    rw [join, String.toList_intercalate, String.toList_singleton]
  have hcut : (join (String.singleton sep) parts).toList.splitOn sep = parts.map String.toList := by
    rw [hjoined]
    exact List.splitOn_intercalate sep (by simpa using hparts) (by simpa using hne)
  rw [split, pieces_eq_splitOn, hcut, List.map_map]
  simp

/-- A text is cut into the only parts without the separator whose joined form it is. -/
theorem eq_split_iff (sep : Char) (s : String) (parts : List String) :
    parts = split sep s ↔
      parts ≠ [] ∧ (∀ p ∈ parts, sep ∉ p.toList) ∧ join (String.singleton sep) parts = s := by
  constructor
  · rintro rfl
    refine ⟨?_, ?_, ?_⟩
    · rw [split, pieces_eq_splitOn]
      simp [List.splitOn_ne_nil]
    · intro p hp
      obtain ⟨l, hl, rfl⟩ := List.mem_map.mp hp
      simpa using not_mem_of_mem_pieces sep _ l hl
    · rw [← String.toList_inj, join, String.toList_intercalate, String.toList_singleton, split,
        List.map_map, pieces_eq_splitOn]
      simp [List.intercalate_splitOn]
  · rintro ⟨hne, hparts, rfl⟩
    exact (split_join sep parts hne hparts).symm

theorem unifyNewlines_of_noReturn (cs : List Char) (h : '\r' ∉ cs) : unifyNewlines cs = cs := by
  induction cs with
  | nil => rfl
  | cons c cs ih =>
    rw [List.mem_cons, not_or] at h
    have ih := ih h.2
    unfold unifyNewlines at ih ⊢
    rw [List.foldr_cons]
    simp only
    rw [if_neg (Ne.symm h.1)]
    simp only
    rw [ih]

/-- The piece itself, or the piece with the line feed that ended it. -/
def Ended (piece line : List Char) : Prop :=
  line = piece ∨ line = piece ++ ['\n']

theorem Ended.allBlank {piece line : List Char} (h : Ended piece line) :
    allBlank line = allBlank piece := by
  have hfeed : isBlank '\n' = true := by decide
  rcases h with rfl | rfl
  · rfl
  · simp [Text.allBlank, hfeed]

/-- Pieces as lines: all but the last get their line feeds back, and an empty last one is none. -/
def linesOf (ps : List (List Char)) : List (List Char) :=
  ps.dropLast.map (· ++ ['\n']) ++ ps.getLast?.toList.filter (· ≠ [])

theorem lines_eq (cs : List Char) : lines cs = linesOf (pieces '\n' cs) := rfl

theorem linesOf_cons_cons (p q : List Char) (ps : List (List Char)) :
    linesOf (p :: q :: ps) = (p ++ ['\n']) :: linesOf (q :: ps) := by
  simp [linesOf]

def significant (ls : List (List Char)) : List (List Char) :=
  ls.filter fun l => !allBlank l

theorem significant_cons (l : List Char) (ls : List (List Char)) :
    significant (l :: ls) = if allBlank l then significant ls else l :: significant ls := by
  by_cases hl : allBlank l = true
  · simp [significant, hl]
  · simp [significant, hl]

theorem significant_append (ls more : List (List Char)) :
    significant (ls ++ more) = significant ls ++ significant more :=
  List.filter_append ..

theorem significant_linesOf (ps : List (List Char)) :
    List.Forall₂ Ended (significant ps) (significant (linesOf ps)) := by
  induction ps with
  | nil => exact .nil
  | cons p ps ih =>
    cases ps with
    | nil =>
      by_cases hp : p = []
      · subst hp
        exact .nil
      · have hlines : linesOf [p] = [p] := by simp [linesOf, hp]
        rw [hlines, List.forall₂_same]
        exact fun _ _ => .inl rfl
    | cons q ps =>
      have hend : Ended p (p ++ ['\n']) := .inr rfl
      rw [linesOf_cons_cons, significant_cons, significant_cons (p ++ ['\n']), hend.allBlank]
      split
      · exact ih
      · exact .cons hend ih

/-- Looking for line feeds and reading line by line find the same lines, the empty first one of an
empty text included. -/
theorem exists_lines (cs : List Char) : ∃ p ps, pieces '\n' cs = p :: ps ∧
    Ended p ((lines cs).headD []) ∧
    List.Forall₂ Ended (significant ps) (significant (lines cs).tail) := by
  obtain ⟨p, ps, hps⟩ : ∃ p ps, pieces '\n' cs = p :: ps := by
    rw [pieces_eq_splitOn]
    exact List.exists_cons_of_ne_nil (List.splitOn_ne_nil '\n' cs)
  refine ⟨p, ps, hps, ?_⟩
  rw [lines_eq, hps]
  cases ps with
  | nil =>
    by_cases hp : p = []
    · subst hp
      exact ⟨.inl rfl, .nil⟩
    · have hlines : linesOf [p] = [p] := by simp [linesOf, hp]
      rw [hlines]
      exact ⟨.inl rfl, .nil⟩
  | cons q ps =>
    rw [linesOf_cons_cons]
    exact ⟨.inr rfl, significant_linesOf (q :: ps)⟩

end DocNavigation.Text
