import DocNavigation.Proofs.Text.Lines

/-!
Carriage returns. Once its line endings are unified, a text has the lines that it has between line
feeds, each of them cut at its carriage returns, as far as lines count that are not blank.
-/

namespace DocNavigation.Text

theorem unifyNewlines_cons (c : Char) (cs : List Char) : unifyNewlines (c :: cs) =
    if c = '\r' then
      if cs.head? = some '\n' then unifyNewlines cs else '\n' :: unifyNewlines cs
    else c :: unifyNewlines cs := by
  unfold unifyNewlines
  rw [List.foldr_cons]
  by_cases hc : c = '\r'
  · cases cs with
    | nil => simp [hc]
    | cons d ds =>
      -- whether a line feed comes next is told by the step before
      by_cases hd : d = '\r' <;> simp [hc, hd]
  · simp only [if_neg hc]

/-- The parts of a line between carriage returns that are not blank. -/
def parts (line : List Char) : List (List Char) :=
  significant (pieces '\r' line)

/-- A line is blank if and only if nothing of it counts. -/
theorem parts_eq_nil_iff (line : List Char) : parts line = [] ↔ allBlank line = true := by
  have hall : ∀ line : List Char, (pieces '\r' line).all allBlank = allBlank line := by
    intro line
    induction line with
    | nil => rfl
    | cons c line ih =>
      obtain ⟨w, ws, hw, hcons⟩ := pieces_cons '\r' c line
      rw [hw] at ih
      rw [hcons]
      by_cases hc : c = '\r'
      · subst hc
        exact ih
      · rw [if_neg hc, List.all_cons]
        rw [List.all_cons] at ih
        simp only [allBlank, List.all_cons, Bool.and_assoc] at ih ⊢
        rw [ih]
  rw [← hall line, parts, significant, List.filter_eq_nil_iff, List.all_eq_true]
  simp

/-- The first lines agree, and the others as far as they count. -/
theorem pieces_unifyNewlines (cs : List Char) : ∃ first rest line more lines,
    pieces '\n' (unifyNewlines cs) = first :: rest ∧ pieces '\n' cs = line :: lines ∧
    pieces '\r' line = first :: more ∧
    significant rest = significant more ++ lines.flatMap parts := by
  induction cs with
  | nil => exact ⟨[], [], [], [], [], rfl, rfl, rfl, rfl⟩
  | cons c cs ih =>
    obtain ⟨first, rest, line, more, lines, hunified, hlines, hparts, hrest⟩ := ih
    have hcount : significant (first :: rest) = (line :: lines).flatMap parts := by
      rw [List.flatMap_cons, parts, hparts, significant_cons, significant_cons, hrest]
      split <;> simp
    obtain ⟨_, _, hw, hpieces⟩ := pieces_cons '\n' c cs
    obtain ⟨rfl, rfl⟩ := List.cons.inj (hlines.symm.trans hw)
    have hfeed : pieces '\n' ('\n' :: unifyNewlines cs) = [] :: first :: rest := by
      obtain ⟨_, _, hw, hcons⟩ := pieces_cons '\n' '\n' (unifyNewlines cs)
      rw [hcons, if_pos rfl, ← hw, hunified]
    rw [unifyNewlines_cons]
    by_cases hreturn : c = '\r'
    · subst hreturn
      have hsplit : pieces '\r' ('\r' :: line) = [] :: first :: more := by
        obtain ⟨_, _, hw, hcons⟩ := pieces_cons '\r' '\r' line
        rw [hcons, if_pos rfl, ← hw, hparts]
      rw [if_neg (by decide)] at hpieces
      by_cases hnext : cs.head? = some '\n'
      · -- the two characters are one ending, and the return is all that is left of a line
        obtain ⟨tail, rfl⟩ := List.head?_eq_some_iff.mp hnext
        obtain ⟨_, _, -, hcons⟩ := pieces_cons '\n' '\n' tail
        obtain ⟨rfl, -⟩ := List.cons.inj (hlines.symm.trans hcons)
        obtain ⟨rfl, rfl⟩ := List.cons.inj hparts
        rw [if_pos rfl, if_pos hnext]
        exact ⟨[], rest, _, _, lines, hunified, hpieces, hsplit, hrest⟩
      · rw [if_pos rfl, if_neg hnext]
        refine ⟨[], _, _, _, lines, hfeed, hpieces, hsplit, ?_⟩
        rw [hcount, List.flatMap_cons, parts, hparts]
    rw [if_neg hreturn]
    by_cases hend : c = '\n'
    · subst hend
      exact ⟨[], _, [], [], line :: lines, hfeed, hpieces, rfl, hcount⟩
    · rw [if_neg hend] at hpieces
      obtain ⟨_, _, hw, hcons⟩ := pieces_cons '\n' c (unifyNewlines cs)
      obtain ⟨rfl, rfl⟩ := List.cons.inj (hunified.symm.trans hw)
      rw [if_neg hend] at hcons
      obtain ⟨_, _, hw, hsplit⟩ := pieces_cons '\r' c line
      obtain ⟨rfl, rfl⟩ := List.cons.inj (hparts.symm.trans hw)
      rw [if_neg hreturn] at hsplit
      exact ⟨c :: first, rest, c :: line, more, lines, hcons, hpieces, hsplit, hrest⟩

/-- The lines that count, when all line endings do, are the parts of those between line feeds. -/
theorem significant_unifyNewlines (cs : List Char) :
    significant (pieces '\n' (unifyNewlines cs)) =
      (significant (pieces '\n' cs)).flatMap parts := by
  obtain ⟨first, rest, line, more, lines, hunified, hlines, hparts, hrest⟩ :=
    pieces_unifyNewlines cs
  have hblank : ∀ ls : List (List Char), (significant ls).flatMap parts = ls.flatMap parts := by
    intro ls
    induction ls with
    | nil => rfl
    | cons l ls ih =>
      rw [significant_cons, List.flatMap_cons]
      split
      case isTrue hl => rw [ih, (parts_eq_nil_iff l).mpr hl, List.nil_append]
      case isFalse hl => rw [List.flatMap_cons, ih]
  rw [hblank, hunified, hlines, List.flatMap_cons, parts, hparts, significant_cons,
    significant_cons, hrest]
  split <;> simp

section
variable (sep : Char)

/-- A text around one of its pieces. -/
theorem eq_of_pieces (cs piece : List Char) (before after : List (List Char))
    (h : pieces sep cs = before ++ piece :: after) :
    cs = before.flatMap (· ++ [sep]) ++ (piece ++ after.flatMap (sep :: ·)) := by
  have hjoin : cs = [sep].intercalate (pieces sep cs) := by
    rw [pieces_eq_splitOn, List.intercalate_splitOn]
  have hafter : [sep].intercalate (piece :: after) = piece ++ after.flatMap (sep :: ·) := by
    clear h
    induction after generalizing piece with
    | nil => simp
    | cons p after ih => rw [List.intercalate_cons_cons, ih]; simp
  have hbefore : [sep].intercalate (before ++ piece :: after) =
      before.flatMap (· ++ [sep]) ++ [sep].intercalate (piece :: after) := by
    clear h
    induction before with
    | nil => rfl
    | cons p before ih =>
      rw [List.cons_append, List.intercalate_cons_of_ne_nil (by simp), ih]
      simp
  rw [← hafter, ← hbefore, ← h]
  exact hjoin

end

/-- Every carriage return is a part of a line ending of two characters. -/
def NoLoneReturn (cs : List Char) : Prop :=
  ∀ before after, cs = before ++ '\r' :: after → after.head? = some '\n'

theorem noLoneReturn_cons (c : Char) (cs : List Char) : NoLoneReturn (c :: cs) ↔
    (c = '\r' → cs.head? = some '\n') ∧ NoLoneReturn cs := by
  constructor
  · intro h
    refine ⟨fun hc => h [] cs (by rw [hc]; rfl), fun before after heq => ?_⟩
    exact h (c :: before) after (by rw [heq]; rfl)
  · rintro ⟨hc, h⟩ before after heq
    cases before with
    | nil =>
      obtain ⟨rfl, rfl⟩ := List.cons.inj heq
      exact hc rfl
    | cons d before => exact h before after (List.cons.inj heq).2

instance decidableNoLoneReturn : (cs : List Char) → Decidable (NoLoneReturn cs)
  | [] => isTrue fun before after heq => by simp at heq
  | c :: cs =>
    have := decidableNoLoneReturn cs
    decidable_of_iff _ (noLoneReturn_cons c cs).symm

/-- Where there is no other carriage return, it is the last character of a line. -/
theorem NoLoneReturn.last (cs : List Char) (h : NoLoneReturn cs) : ∀ line ∈ pieces '\n' cs,
    ∀ a b, line = a ++ '\r' :: b → b = [] := by
  induction cs with
  | nil =>
    intro line hline a b hsplit
    rw [List.mem_singleton.mp hline] at hsplit
    simp at hsplit
  | cons c cs ih =>
    obtain ⟨hnext, htail⟩ := (noLoneReturn_cons c cs).mp h
    obtain ⟨w, ws, hw, hcons⟩ := pieces_cons '\n' c cs
    have ih := ih htail
    rw [hw, List.forall_mem_cons] at ih
    rw [hcons]
    by_cases hend : c = '\n'
    · rw [if_pos hend, List.forall_mem_cons, List.forall_mem_cons]
      exact ⟨fun a b hsplit => by simp at hsplit, ih⟩
    · rw [if_neg hend, List.forall_mem_cons]
      refine ⟨?_, ih.2⟩
      intro a b hsplit
      cases a with
      | cons d a => exact ih.1 a b (List.cons.inj hsplit).2
      | nil =>
        obtain ⟨rfl, rfl⟩ := List.cons.inj hsplit
        -- the line feed comes right behind, so that nothing is left of the line
        obtain ⟨tail, rfl⟩ := List.head?_eq_some_iff.mp (hnext rfl)
        obtain ⟨_, _, -, hnext⟩ := pieces_cons '\n' '\n' tail
        exact (List.cons.inj (hw.symm.trans hnext)).1

/-- Such a line has nothing but its ending cut off. -/
theorem pieces_return (line : List Char) (h : ∀ a b, line = a ++ '\r' :: b → b = []) :
    pieces '\r' line = [line] ∨ ∃ piece, pieces '\r' line = [piece, []] := by
  by_cases hreturn : '\r' ∈ line
  · obtain ⟨piece, b, rfl⟩ := List.append_of_mem hreturn
    obtain rfl := h piece b rfl
    have hpiece : '\r' ∉ piece := by
      intro hmem
      obtain ⟨a, b, rfl⟩ := List.append_of_mem hmem
      have hnone := h a (b ++ ['\r']) (by simp)
      simp at hnone
    have hjoin : ['\r'].intercalate [piece, []] = piece ++ ['\r'] := by simp
    refine .inr ⟨piece, ?_⟩
    rw [pieces_eq_splitOn, ← hjoin,
      List.splitOn_intercalate '\r' (by simp [hpiece]) (List.cons_ne_nil _ _)]
  · have hjoin : ['\r'].intercalate [line] = line := by simp
    left
    rw [pieces_eq_splitOn]
    nth_rewrite 1 [← hjoin]
    rw [List.splitOn_intercalate '\r' (by simp [hreturn]) (List.cons_ne_nil _ _)]

end DocNavigation.Text
