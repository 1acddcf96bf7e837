import DocNavigation.Scan
import DocNavigation.Proofs.Disk.Lookup
import DocNavigation.Proofs.Glob.Translated
import DocNavigation.Proofs.Result

/-!
Lists of patterns made ready for matching: the malformed ones are left out, and a name matches the
list if one of the others is found in it. A pattern at odds with the bounds of patterns as such bars
the whole list.
-/

namespace DocNavigation.Filter

/-- Some pattern of the list that is well formed is found in the name. -/
def IsFound (patterns : List String) (name : String) : Prop :=
  ∃ text ∈ patterns, ∃ n, Pattern.read text = .ok n ∧ n.found name = true

/-- The text with its pattern, if it has one. -/
def readied? (text : String) : Option (String × Pattern.Node) :=
  match Pattern.read text with
  | .ok n => some (text, n)
  | .error _ => none

/-- The error that the text bars a list with, if it does. -/
def barring? (text : String) : Option Pattern.ReadError :=
  match Pattern.read text with
  | .ok _ | .error .malformed => none
  | .error e => some e

/-- The texts that have patterns. -/
def accepted (texts : List String) : List String :=
  texts.filter fun text => (readied? text).isSome

theorem readied?_eq_some_iff (text : String) (pair : String × Pattern.Node) :
    readied? text = some pair ↔ text = pair.1 ∧ Pattern.read text = .ok pair.2 := by
  unfold readied?
  cases hread : Pattern.read text with
  | ok n => simp [Prod.ext_iff]
  | error e => simp

theorem barring?_of_readied (text : String) (h : (readied? text).isSome = true) :
    barring? text = none := by
  unfold readied? at h
  unfold barring?
  cases hread : Pattern.read text with
  | ok n => rfl
  | error e =>
    rw [hread] at h
    cases h

/-- The first text that bars a list decides. -/
theorem compile_eq (texts : List String) : compile texts =
    match texts.findSome? barring? with
    | none => .ok (texts.filterMap readied?)
    | some e => .error e := by
  induction texts with
  | nil => rfl
  | cons text texts ih =>
    rw [compile, ih, List.findSome?_cons, List.filterMap_cons, compile?, barring?, readied?]
    cases Pattern.read text with
    | ok n => cases texts.findSome? barring? <;> rfl
    | error e => cases e <;> cases texts.findSome? barring? <;> rfl

theorem filterMap_accepted (texts : List String) :
    (accepted texts).filterMap readied? = texts.filterMap readied? := by
  rw [accepted, List.filterMap_filter]
  refine List.filterMap_congr fun text _ => ?_
  cases readied? text <;> rfl

theorem findSome?_accepted (texts : List String) : (accepted texts).findSome? barring? = none := by
  rw [List.findSome?_eq_none_iff]
  exact fun text htext => barring?_of_readied text (List.mem_filter.mp htext).2

section
variable (texts : List String) (nodes : List (String × Pattern.Node))

theorem compile_eq_ok_iff : compile texts = .ok nodes ↔
    texts.findSome? barring? = none ∧ texts.filterMap readied? = nodes := by
  rw [compile_eq]
  cases texts.findSome? barring? <;> simp

theorem compile_of_read (h : ∀ text ∈ texts, ∃ n, Pattern.read text = .ok n) :
    ∃ nodes, compile texts = .ok nodes := by
  refine ⟨_, (compile_eq_ok_iff texts _).mpr ⟨?_, rfl⟩⟩
  rw [List.findSome?_eq_none_iff]
  intro text htext
  obtain ⟨n, hn⟩ := h text htext
  rw [barring?, hn]

end

theorem matchesAny_readied (texts : List String) (name : String) :
    matchesAny ((texts.filterMap readied?).map (·.2)) name = true ↔ IsFound texts name := by
  simp only [matchesAny, List.any_eq_true, List.mem_map, List.mem_filterMap, readied?_eq_some_iff]
  constructor
  · rintro ⟨n, ⟨pair, ⟨text, htext, -, hread⟩, rfl⟩, hfound⟩
    exact ⟨text, htext, pair.2, hread, hfound⟩
  · rintro ⟨text, htext, n, hread, hfound⟩
    exact ⟨n, ⟨(text, n), ⟨text, htext, rfl, hread⟩, rfl⟩, hfound⟩

theorem compileAll_eq (texts : List String) : Scan.compileAll texts =
    match texts.findSome? barring? with
    | none => .ok ((texts.filterMap readied?).map (·.2))
    | some e => .error (.pattern e) := by
  rw [Scan.compileAll, compile_eq]
  cases texts.findSome? barring? <;> rfl

section
variable (texts : List String) (nodes : List Pattern.Node)

theorem compileAll_eq_ok_iff : Scan.compileAll texts = .ok nodes ↔
    texts.findSome? barring? = none ∧ (texts.filterMap readied?).map (·.2) = nodes := by
  rw [compileAll_eq]
  cases texts.findSome? barring? <;> simp

theorem mem_compileAll (h : Scan.compileAll texts = .ok nodes) (n : Pattern.Node) :
    n ∈ nodes ↔ ∃ text ∈ texts, Pattern.read text = .ok n := by
  obtain ⟨-, rfl⟩ := (compileAll_eq_ok_iff texts nodes).mp h
  simp [List.mem_filterMap, readied?_eq_some_iff]

theorem matchesAny_iff (h : Scan.compileAll texts = .ok nodes) (name : String) :
    matchesAny nodes name = true ↔ IsFound texts name := by
  obtain ⟨-, rfl⟩ := (compileAll_eq_ok_iff texts nodes).mp h
  exact matchesAny_readied texts name

theorem compileAll_of_read (h : ∀ text ∈ texts, ∃ n, Pattern.read text = .ok n) :
    ∃ nodes, Scan.compileAll texts = .ok nodes := by
  obtain ⟨pairs, hpairs⟩ := compile_of_read texts h
  exact ⟨pairs.map (·.2), by rw [Scan.compileAll, hpairs]⟩

end

end DocNavigation.Filter

/-!
Rules for ignored names. A rule is applied to the names that end in what its glob matches, so only a
rule that begins with a star is applied to whole names.
-/

namespace DocNavigation.Ignored

/-- The lines of a list, without white space around them. -/
def lines (bytes : ByteArray) : List String :=
  (Text.pieces '\n' (Text.unifyNewlines (Text.Utf8.decodeLenient bytes))).map fun line =>
    Text.trim (String.ofList line)

/-- The glob of a rule. -/
def globOf (line : String) : List Char :=
  Path.dropSlashes line.toList

/-- The glob of some rule of the list matches the text as a whole. -/
def HasMatch (bytes : ByteArray) (cs : List Char) : Prop :=
  ∃ line ∈ lines bytes, isRule line = true ∧ Pattern.Glob.Matches (globOf line) cs

section
variable (bytes : ByteArray) (name : String)

theorem patterns_eq : patterns bytes = ((lines bytes).filter isRule).map pattern := rfl

theorem read_pattern (line : String) :
    Pattern.read (pattern line) = .ok (Pattern.Glob.node (String.ofList (globOf line))) :=
  Pattern.Glob.read_toPattern _

theorem mem_patterns (text : String) : text ∈ patterns bytes ↔
    ∃ line ∈ lines bytes, isRule line = true ∧ pattern line = text := by
  rw [patterns_eq, List.mem_map]
  simp only [List.mem_filter, and_assoc]

theorem compileAll_patterns : ∃ nodes, Scan.compileAll (patterns bytes) = .ok nodes := by
  refine Filter.compileAll_of_read _ fun text htext => ?_
  obtain ⟨line, -, -, rfl⟩ := (mem_patterns bytes text).mp htext
  exact ⟨_, read_pattern line⟩

/-- A name is ignored if it ends in what some rule matches. -/
theorem isFound_iff : Filter.IsFound (patterns bytes) name ↔
    ∃ rest, rest <:+ name.toList ∧ HasMatch bytes rest := by
  constructor
  · rintro ⟨text, htext, n, hread, hfound⟩
    obtain ⟨line, hline, hrule, rfl⟩ := (mem_patterns bytes text).mp htext
    cases (read_pattern line).symm.trans hread
    obtain ⟨rest, hrest, hmatch⟩ := (Pattern.Glob.found_iff _ name).mp hfound
    rw [String.toList_ofList] at hmatch
    exact ⟨rest, hrest, line, hline, hrule, hmatch⟩
  · rintro ⟨rest, hrest, line, hline, hrule, hmatch⟩
    refine ⟨_, (mem_patterns bytes _).mpr ⟨line, hline, hrule, rfl⟩, _, read_pattern line, ?_⟩
    rw [Pattern.Glob.found_iff, String.toList_ofList]
    exact ⟨rest, hrest, hmatch⟩

/-- Rules that begin with a star are applied to whole names. -/
theorem isFound_of_stars
    (h : ∀ line ∈ lines bytes, isRule line = true → (globOf line).head? = some '*') :
    Filter.IsFound (patterns bytes) name ↔ HasMatch bytes name.toList := by
  rw [isFound_iff]
  constructor
  · rintro ⟨rest, hrest, line, hline, hrule, hmatch⟩
    refine ⟨line, hline, hrule, ?_⟩
    obtain ⟨glob, hglob⟩ : ∃ glob, globOf line = '*' :: glob :=
      List.head?_eq_some_iff.mp (h line hline hrule)
    rw [hglob, Pattern.Glob.matches_star_iff] at hmatch ⊢
    obtain ⟨rest', hrest', hmatch⟩ := hmatch
    exact ⟨rest', hrest'.trans hrest, hmatch⟩
  · exact fun hmatch => ⟨name.toList, List.suffix_rfl, hmatch⟩

theorem exists_ends_iff (nodes : List Pattern.Node)
    (h : Scan.compileAll (patterns bytes) = .ok nodes) :
    (∃ n ∈ nodes, n.ends ⟨[], name.toList, []⟩ ≠ []) ↔ HasMatch bytes name.toList := by
  constructor
  · rintro ⟨n, hn, hends⟩
    obtain ⟨text, htext, hread⟩ := (Filter.mem_compileAll _ nodes h n).mp hn
    obtain ⟨line, hline, hrule, rfl⟩ := (mem_patterns bytes text).mp htext
    cases (read_pattern line).symm.trans hread
    rw [Pattern.Glob.ends_iff, String.toList_ofList] at hends
    exact ⟨line, hline, hrule, hends⟩
  · rintro ⟨line, hline, hrule, hmatch⟩
    refine ⟨_, (Filter.mem_compileAll _ nodes h _).mpr
      ⟨_, (mem_patterns bytes _).mpr ⟨line, hline, hrule, rfl⟩, read_pattern line⟩, ?_⟩
    rwa [Pattern.Glob.ends_iff, String.toList_ofList]

end

theorem ignoredPatterns_of_bytes (d : Disk) (root : String) (bytes : ByteArray)
    (h : d.bytes (Path.join root fileName) = .ok bytes) :
    Scan.ignoredPatterns d root = .ok (patterns bytes) := by
  obtain ⟨p, hp⟩ := (Disk.readFile_eq_ok_iff d _ bytes).mp ((Result.mapError_eq_ok_iff _ _ _).mp h)
  have hthere : d.isThere (Path.join root fileName) = true := by
    rw [Disk.isThere, Disk.entry?, hp]
    rfl
  simp only [Scan.ignoredPatterns, hthere, if_true, h]
  rfl

/-- The patterns of a list of rules are found in the names that end in what a rule matches, though
matched from the start they would be for the names that a rule matches as a whole. -/
theorem matchesAny_ignored (d : Disk) (root : String) (bytes : ByteArray) (name : String)
    (h : d.bytes (Path.join root fileName) = .ok bytes) :
    ∃ texts nodes, Scan.ignoredPatterns d root = .ok texts ∧ Scan.compileAll texts = .ok nodes ∧
      (Filter.matchesAny nodes name = true ↔
        ∃ rest, rest <:+ name.toList ∧ HasMatch bytes rest) ∧
      ((∃ n ∈ nodes, n.ends ⟨[], name.toList, []⟩ ≠ []) ↔ HasMatch bytes name.toList) := by
  obtain ⟨nodes, hnodes⟩ := compileAll_patterns bytes
  refine ⟨patterns bytes, nodes, ignoredPatterns_of_bytes d root bytes h, hnodes, ?_,
    exists_ends_iff bytes name nodes hnodes⟩
  rw [Filter.matchesAny_iff _ nodes hnodes, isFound_iff]

theorem matchesAny_ignored_foo : ∃ texts nodes,
    Scan.ignoredPatterns ⟨[], [([".gitignore"], .file "foo\n".toUTF8)], []⟩ "/" = .ok texts ∧
    Scan.compileAll texts = .ok nodes ∧
      (Filter.matchesAny nodes "barfoo" = true ↔
        ∃ rest, rest <:+ "barfoo".toList ∧ HasMatch "foo\n".toUTF8 rest) ∧
      ((∃ n ∈ nodes, n.ends ⟨[], "barfoo".toList, []⟩ ≠ []) ↔
        HasMatch "foo\n".toUTF8 "barfoo".toList) := by
  refine matchesAny_ignored ⟨[], [([".gitignore"], .file "foo\n".toUTF8)], []⟩ "/" "foo\n".toUTF8
    "barfoo" ?_
  decide +kernel

/-- A rule for one name keeps out another name that ends in it. -/
theorem longer_name_ignored : ∃ texts nodes,
    Scan.ignoredPatterns ⟨[], [([".gitignore"], .file "foo\n".toUTF8)], []⟩ "/" = .ok texts ∧
    Scan.compileAll texts = .ok nodes ∧ Filter.matchesAny nodes "barfoo" = true ∧
    ¬ HasMatch "foo\n".toUTF8 "barfoo".toList := by
  have hread : Disk.bytes ⟨[], [([".gitignore"], .file "foo\n".toUTF8)], []⟩
      (Path.join "/" fileName) = .ok "foo\n".toUTF8 := by decide +kernel
  have hlines : lines "foo\n".toUTF8 = ["foo", ""] := by decide +kernel
  have hglob : globOf "foo" = ['f', 'o', 'o'] := by decide +kernel
  have hfoo : Pattern.Glob.Matches ['f', 'o', 'o'] ['f', 'o', 'o'] := by
    rw [← Pattern.Glob.fits_tokens 3 ['f', 'o', 'o'] _ (Nat.le_refl 3)]
    exact ⟨by decide, by decide, by decide, rfl⟩
  have hbarfoo : ¬ Pattern.Glob.Matches ['f', 'o', 'o'] "barfoo".toList := by
    rw [← Pattern.Glob.fits_tokens 3 ['f', 'o', 'o'] _ (Nat.le_refl 3)]
    intro h
    exact absurd h.1 (by decide)
  obtain ⟨nodes, hnodes⟩ := compileAll_patterns "foo\n".toUTF8
  refine ⟨_, nodes, ignoredPatterns_of_bytes _ "/" _ hread, hnodes, ?_, ?_⟩
  · rw [Filter.matchesAny_iff _ nodes hnodes, isFound_iff]
    refine ⟨['f', 'o', 'o'], by decide, "foo", ?_, by decide +kernel, ?_⟩
    · rw [hlines]
      exact List.mem_cons_self ..
    · rwa [hglob]
  · rintro ⟨line, hline, hrule, hmatch⟩
    rw [hlines] at hline
    rcases List.mem_pair.mp hline with rfl | rfl
    · rw [hglob] at hmatch
      exact hbarfoo hmatch
    · exact absurd hrule (by decide +kernel)

end DocNavigation.Ignored
