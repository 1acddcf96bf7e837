import DocNavigation.Proofs.Artifact.RoundTrip
import DocNavigation.Proofs.Text.Trim
import DocNavigation.Script.Basic

/-!
Reading the script of all source trees undoes writing it. The closing quote of a key is found behind
every escape, and the tree of an assignment reaches from the first brace after the key to the last,
so that no text inside of them can shift the borders.
-/

namespace DocNavigation.Text

theorem mem_hexDigits (width n : Nat) (c : Char) (h : c ∈ hexDigits width n) :
    ∃ d, d < 16 ∧ c = hexDigit d := by
  induction width generalizing n with
  | zero => exact absurd h List.not_mem_nil
  | succ width ih =>
    rcases List.mem_append.mp h with h | h
    · exact ih _ h
    · exact ⟨n % 16, Nat.mod_lt _ (by decide), List.mem_singleton.mp h⟩

/-- No digit is taken for the end of a literal or for an escape. -/
theorem hexDigits_plain (width n : Nat) : ∀ c ∈ hexDigits width n, c ≠ '"' ∧ c ≠ '\\' := by
  intro c hc
  obtain ⟨d, hd, rfl⟩ := mem_hexDigits width n c hc
  have h : ∀ i : Fin 16, hexDigit i.val ≠ '"' ∧ hexDigit i.val ≠ '\\' := by decide
  exact h ⟨d, hd⟩

end DocNavigation.Text

namespace DocNavigation.Script

theorem toList_wrapped (a b c : String) :
    (a ++ b ++ c).toList = a.toList ++ (b.toList ++ c.toList) := by
  rw [String.toList_append, String.toList_append, List.append_assoc]

theorem dropPrefix?_append (pre rest : List Char) : dropPrefix? pre (pre ++ rest) = some rest := by
  have hprefix : pre.isPrefixOf (pre ++ rest) = true :=
    List.isPrefixOf_iff_prefix.mpr (List.prefix_append pre rest)
  rw [dropPrefix?, if_pos hprefix, List.drop_left]

theorem literalLength?_plain (used rest : List Char) (h : ∀ c ∈ used, c ≠ '"' ∧ c ≠ '\\') :
    literalLength? (used ++ rest) false = (literalLength? rest false).map (· + used.length) := by
  induction used with
  | nil => simp
  | cons c used ih =>
    rw [List.forall_mem_cons] at h
    rw [List.cons_append, literalLength?, if_neg h.1.1, decide_eq_false h.1.2, ih h.2,
      Option.map_map]
    congr 1

/-- A written character is passed over as a whole. -/
theorem literalLength?_escapedChar (c : Char) (rest : List Char) :
    literalLength? (Json.escapedChar c ++ rest) false =
      (literalLength? rest false).map (· + (Json.escapedChar c).length) := by
  have hescape : ∀ (e : Char) (cs : List Char), literalLength? ('\\' :: e :: cs) false =
      (literalLength? cs false).map (· + 2) := by
    intro e cs
    have hquote : ¬ '\\' = '"' := by decide
    have hback : decide ('\\' = '\\') = true := by decide
    rw [literalLength?, if_neg hquote, hback, literalLength?, Option.map_map]
    congr 1
  rcases Json.escapedChar_cases c with ⟨e, he, -, -, -⟩ | ⟨he, -⟩ | ⟨he, hquote, hback, -⟩
  · rw [he]
    exact hescape e rest
  · rw [he, List.cons_append, List.cons_append, hescape,
      literalLength?_plain _ _ (Text.hexDigits_plain 4 _), Option.map_map]
    congr 1
  · rw [he]
    apply literalLength?_plain
    intro d hd
    rw [List.mem_singleton.mp hd]
    exact ⟨hquote, hback⟩

/-- The first quote that no escape covers is the closing one, whatever comes after it. -/
theorem literalLength?_quoted (cs rest : List Char) :
    literalLength? (cs.flatMap Json.escapedChar ++ '"' :: rest) false =
      some ((cs.flatMap Json.escapedChar).length + 1) := by
  induction cs with
  | nil => simp [literalLength?]
  | cons c cs ih =>
    rw [List.flatMap_cons, List.append_assoc, literalLength?_escapedChar, ih, List.length_append]
    simp only [Option.map_some]
    congr 1
    omega

/-- The ends of an object's text are braces. -/
theorem braces_of_obj (fields : List (String × Json)) :
    2 ≤ (Json.text (.obj fields)).length ∧
      (Json.text (.obj fields)).head? = some '\x7b' ∧
      (Json.text (.obj fields)).getLast? = some '\x7d' := by
  rw [Json.text_obj]
  refine ⟨?_, rfl, ?_⟩
  · simp only [List.length_cons, List.length_append, List.length_nil]
    omega
  · rw [← List.cons_append, List.getLast?_concat]

section
variable (u : Component)

/-- An assignment up to its key, and what comes after the key's opening quote. -/
theorem toList_assignment : (assignment u).toList = "sourcesIndex[\"".toList ++
    (u.name.toList.flatMap Json.escapedChar ++ '"' :: (']' :: ' ' :: '=' :: ' ' ::
      (Json.text u.tree.toJson ++ [';']))) := by
  have hopen : "sourcesIndex[".toList ++ ['"'] = "sourcesIndex[\"".toList := by decide
  have hbetween : "] = ".toList = [']', ' ', '=', ' '] := by decide
  have hsemicolon : ";".toList = [';'] := by decide
  have hkey := toList_wrapped "sourcesIndex[" (Json.quotedString u.name) "] = "
  have hline := toList_wrapped ("sourcesIndex[" ++ Json.quotedString u.name ++ "] = ")
    (u.tree.toJson.write Json.compact) ";"
  rw [hkey, hbetween, hsemicolon, Json.toList_quotedString] at hline
  rw [← hopen]
  refine hline.trans ?_
  simp only [Json.text, List.append_assoc, List.cons_append, List.nil_append]

theorem tree_isObj : ∃ fields, u.tree.toJson = .obj fields := by
  cases u.tree with
  | node n s ds fs => exact ⟨_, rfl⟩

theorem assignmentParts?_assignment : assignmentParts? (assignment u).toList =
    some (Json.text (.str u.name), Json.text u.tree.toJson) := by
  obtain ⟨fields, hfields⟩ := tree_isObj u
  have hbraces := braces_of_obj fields
  rw [← hfields] at hbraces
  have hbrace : ∃ cs, Json.text u.tree.toJson ++ [';'] = '\x7b' :: cs := by
    rw [hfields, Json.text_obj]
    exact ⟨_, rfl⟩
  obtain ⟨cs, hcs⟩ := hbrace
  have hkey : ∀ rest : List Char, (u.name.toList.flatMap Json.escapedChar ++ '"' :: rest).take
      ((u.name.toList.flatMap Json.escapedChar).length + 1) =
        u.name.toList.flatMap Json.escapedChar ++ ['"'] := by
    intro rest
    rw [List.append_cons]
    exact List.take_left' (by simp)
  have hdrop : ∀ rest : List Char, (u.name.toList.flatMap Json.escapedChar ++ '"' :: rest).drop
      ((u.name.toList.flatMap Json.escapedChar).length + 1) = rest := by
    intro rest
    rw [List.append_cons]
    exact List.drop_left' (by simp)
  have hbracket := fun rest => dropPrefix?_append [']'] rest
  have hequals := fun rest => dropPrefix?_append ['='] rest
  have hspace : ∀ rest, Text.trimLeft (' ' :: '=' :: rest) = '=' :: rest := by
    intro rest
    rw [Text.trimLeft, List.dropWhile_cons_of_pos (by decide), List.dropWhile_cons_of_neg (by decide)]
  have htree : Text.trimLeft (' ' :: (Json.text u.tree.toJson ++ [';'])) =
      Json.text u.tree.toJson ++ [';'] := by
    rw [Text.trimLeft, List.dropWhile_cons_of_pos (by decide), hcs,
      List.dropWhile_cons_of_neg (by decide)]
  rw [toList_assignment, assignmentParts?, dropPrefix?_append]
  simp only [Option.bind_eq_bind, Option.bind_some, literalLength?_quoted, hkey, hdrop]
  rw [show (']' :: ' ' :: '=' :: ' ' :: (Json.text u.tree.toJson ++ [';'])) =
    [']'] ++ (' ' :: '=' :: ' ' :: (Json.text u.tree.toJson ++ [';'])) from rfl, hbracket]
  simp only [Option.bind_some, hspace]
  rw [show ('=' :: ' ' :: (Json.text u.tree.toJson ++ [';'])) =
    ['='] ++ (' ' :: (Json.text u.tree.toJson ++ [';'])) from rfl, hequals]
  simp only [Option.bind_some, htree, List.getLast?_concat, List.dropLast_concat, if_true]
  rw [if_pos hbraces, Json.text_str]

/-- An assignment is one line that begins and ends with a character of its own. -/
theorem assignment_ends : ∃ cs, (assignment u).toList = 's' :: (cs ++ [';']) := by
  rw [toList_assignment]
  refine ⟨"ourcesIndex[\"".toList ++ (u.name.toList.flatMap Json.escapedChar ++ '"' ::
    (']' :: ' ' :: '=' :: ' ' :: Json.text u.tree.toJson)), ?_⟩
  simp

theorem assignment_printable : Json.Printable (assignment u).toList := by
  have hkey : Json.Printable (u.name.toList.flatMap Json.escapedChar) := by
    intro c hc
    obtain ⟨d, -, hd⟩ := List.mem_flatMap.mp hc
    exact Json.escapedChar_printable d c hd
  have htree := Json.printable_text _ (Tree.toJson_restorable u.tree)
  have hopen : Json.Printable "sourcesIndex[\"".toList := by decide
  have hbetween : Json.Printable ['"', ']', ' ', '=', ' '] := by decide
  have hsemicolon : Json.Printable [';'] := by decide
  rw [toList_assignment, Json.printable_append, Json.printable_append]
  refine ⟨hopen, hkey, ?_⟩
  exact (Json.printable_append _ _).mpr
    ⟨hbetween, (Json.printable_append _ _).mpr ⟨htree, hsemicolon⟩⟩

theorem readText_text (v : Json) (hv : v.Everywhere Json.Restorable) :
    readText (Json.text v) = .ok v := by
  rw [readText, Json.text, String.ofList_toList, Json.read_write v hv]

theorem readAssignment_assignment (hu : u.WellFormed) (trees : List (String × Tree))
    (hnew : u.name ∉ trees.map (·.1)) :
    readAssignment trees (assignment u).toList = .ok (u.name, u.tree.copy) := by
  have hfresh : trees.any (·.1 = u.name) = false := by
    rw [List.any_eq_false]
    intro t ht hname
    exact hnew (of_decide_eq_true hname ▸ List.mem_map_of_mem ht)
  rw [readAssignment, assignmentParts?_assignment]
  refine (Result.bind_eq_ok_iff _ _ _).mpr ⟨_, readText_text (.str u.name) trivial, ?_⟩
  refine (Result.bind_eq_ok_iff _ _ _).mpr
    ⟨_, readText_text _ (Tree.toJson_restorable u.tree), ?_⟩
  refine (Result.bind_eq_ok_iff _ _ _).mpr ⟨u.name, ?_, ?_⟩
  · rw [Name.check_str "unit" u.name hu.name]
    rfl
  · simp only [hfresh, Bool.false_eq_true, if_false]
    exact (Result.bind_eq_ok_iff _ _ _).mpr ⟨_, Tree.ofJson_toJson u.tree hu.tree, rfl⟩

end

theorem parseLines_assignment (source : Option String) (u : Component) (hu : u.WellFormed)
    (lines : List (List Char)) (number : Nat) (trees : List (String × Tree))
    (hnew : u.name ∉ trees.map (·.1)) :
    parseLines source ((assignment u).toList :: lines) number trees =
      parseLines source lines (number + 1) (trees ++ [(u.name, u.tree.copy)]) := by
  obtain ⟨cs, hcs⟩ := assignment_ends u
  have htrim : Text.trimRight (Text.trimLeft (assignment u).toList) = (assignment u).toList := by
    rw [hcs]
    exact Text.trim_of_ends 's' ';' cs (by decide) (by decide)
  have hother : ((assignment u).toList.isEmpty || (assignment u).toList = preamble.toList ||
      (assignment u).toList = trailer.toList) = false := by
    have hpreamble : preamble.toList = 'v' :: preamble.toList.tail := by rfl
    have htrailer : trailer.toList = 'c' :: trailer.toList.tail := by rfl
    rw [hcs, hpreamble, htrailer]
    simp
  rw [parseLines, htrim]
  simp only [hother, Bool.false_eq_true, if_false, readAssignment_assignment u hu trees hnew]

/-- The units are read one after the other; what they add does not depend on the lines after. -/
theorem parseLines_assignments (source : Option String) (units : List Component)
    (hunits : ∀ u ∈ units, u.WellFormed) (lines : List (List Char)) (number : Nat)
    (trees : List (String × Tree))
    (hnodup : (trees.map (·.1) ++ units.map (·.name)).Nodup) :
    parseLines source (units.map (fun u => (assignment u).toList) ++ lines) number trees =
      parseLines source lines (number + units.length)
        (trees ++ units.map fun u => (u.name, u.tree.copy)) := by
  induction units generalizing number trees with
  | nil => simp
  | cons u units ih =>
    rw [List.forall_mem_cons] at hunits
    have hnew : u.name ∉ trees.map (·.1) := by
      intro hmem
      rw [List.nodup_append] at hnodup
      exact hnodup.2.2 _ hmem u.name (by simp) rfl
    have hrest : ((trees ++ [(u.name, u.tree.copy)]).map (·.1) ++ units.map (·.name)).Nodup := by
      simpa using hnodup
    rw [List.map_cons, List.cons_append, parseLines_assignment source u hunits.1 _ _ _ hnew,
      ih hunits.2 _ _ hrest, List.length_cons, List.map_cons, List.append_assoc]
    congr 1
    omega

/-- The lines of a script, its empty end left out. -/
def scriptLines (r : Registry) : List (List Char) :=
  preamble.toList :: r.units.map (fun u => (assignment u).toList) ++ [trailer.toList]

theorem toList_render (r : Registry) :
    (render r).toList = ['\n'].intercalate (scriptLines r) ++ ['\n'] := by
  rw [render, String.toList_append, String.toList_intercalate, scriptLines, List.map_append,
    List.map_cons, List.map_map]
  rfl

theorem scriptLines_printable (r : Registry) : ∀ l ∈ scriptLines r, Json.Printable l := by
  intro l hl
  rw [scriptLines, List.mem_append, List.mem_cons, List.mem_map, List.mem_singleton] at hl
  rcases hl with (rfl | ⟨u, -, rfl⟩) | rfl
  · decide
  · exact assignment_printable u
  · decide

theorem noReturn_render (r : Registry) : '\r' ∉ (render r).toList := by
  rw [toList_render]
  exact Json.return_not_mem_of_printable _ (scriptLines_printable r)

theorem parse_render (r : Registry) (source : Option String) (hnames : r.names.Nodup)
    (hunits : ∀ u ∈ r.units, u.WellFormed) :
    parse (render r) source = .ok (r.units.map fun u => (u.name, u.tree.copy)) := by
  have hfeed : ∀ l ∈ scriptLines r, '\n' ∉ l := by
    intro l hl
    exact Json.feed_not_mem_of_printable l (scriptLines_printable r l hl)
  have hpreamble : Text.trimRight (Text.trimLeft preamble.toList) = preamble.toList := by decide
  have htrailer : Text.trimRight (Text.trimLeft trailer.toList) = trailer.toList := by decide
  rw [parse, toList_render, Text.pieces_ended _ hfeed (by simp [scriptLines]), scriptLines,
    List.append_assoc, List.cons_append, parseLines, hpreamble]
  simp only [decide_true, Bool.or_true, Bool.true_or, if_true]
  rw [parseLines_assignments source r.units hunits _ _ [] hnames]
  -- only the trailer and the empty end are left
  rw [List.singleton_append, parseLines, htrailer]
  simp only [decide_true, Bool.or_true, if_true]
  rfl

end DocNavigation.Script
