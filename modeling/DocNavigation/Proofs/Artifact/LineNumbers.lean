import DocNavigation.Proofs.Artifact.Lookup

/-!
The line numbers of defects. Decoding a whole text counts the lines that are not blank, so that the
number it reports falls behind the line by the blank ones before it. A reader of lines counts all of
them.
-/

namespace DocNavigation

namespace Text

/-- All but the last piece are lines with line feeds. -/
theorem linesOf_append (ps : List (List Char)) (q : List Char) (qs : List (List Char)) :
    linesOf (ps ++ q :: qs) = ps.map (· ++ ['\n']) ++ linesOf (q :: qs) := by
  induction ps with
  | nil => rfl
  | cons p ps ih =>
    obtain ⟨r, rs, hrs⟩ : ∃ r rs, ps ++ q :: qs = r :: rs :=
      List.exists_cons_of_ne_nil (by simp)
    rw [hrs] at ih
    rw [List.cons_append, hrs, linesOf_cons_cons, ih, List.map_cons, List.cons_append]

theorem exists_linesOf_cons (p : List Char) (ps : List (List Char)) (hp : p ≠ []) :
    ∃ line rest, linesOf (p :: ps) = line :: rest ∧ Ended p line := by
  cases ps with
  | nil => exact ⟨p, [], by simp [linesOf, hp], .inl rfl⟩
  | cons q ps => exact ⟨_, _, linesOf_cons_cons p q ps, .inr rfl⟩

theorem ne_nil_of_full (line : List Char) (h : allBlank line = false) : line ≠ [] := by
  rintro rfl
  cases h

theorem length_significant_ended (ls : List (List Char)) :
    (significant (ls.map (· ++ ['\n']))).length = (significant ls).length := by
  have hend : ∀ l : List Char, allBlank (l ++ ['\n']) = allBlank l :=
    fun l => Ended.allBlank (.inr rfl)
  rw [significant, significant, List.filter_map, List.length_map]
  simp only [Function.comp_def, hend]

theorem length_eq_significant_add (ls : List (List Char)) :
    (significant ls).length + ls.countP allBlank = ls.length := by
  rw [List.length_eq_countP_add_countP allBlank (l := ls), Nat.add_comm, significant,
    ← List.countP_eq_length_filter]
  simp

end Text

namespace Artifact

/-- The line is where reading the lines of a text fails: it is no header and comes first, or the
lines before it are a header and records of the first units that it lists, and the line cannot be
added for the next one. Blank lines stand anywhere between them. -/
inductive Fails (before : List (List Char)) (line : List Char) (defect : Defect) : Prop
  | header (hfirst : Text.significant before = []) (hdefect : Header.read line = .error defect)
  | record (first : List Char) (records : List (List Char)) (h : Header) (us : List Component)
      (expected : String) (hbefore : Text.significant before = first :: records)
      (hheader : Header.read first = .ok h) (hrecords : List.Forall₂ SpellsRecord records us)
      (hnames : us.map (·.name) = h.units.take records.length)
      (hexpected : h.units[records.length]? = some expected)
      (hdefect : addRecord ⟨us.map Component.close, false⟩ expected line = .error defect)

/-- Records are added one by one up to the first that cannot be. -/
theorem addRecords_fault (expected : List String) (lines : List (List Char)) (r s : Registry)
    (number k : Nat) (d : Defect) (hopen : r.frozen = false)
    (h : addRecords r expected lines number = (s, some (d, k))) :
    ∃ done line rest us name, lines = done ++ line :: rest ∧ List.Forall₂ SpellsRecord done us ∧
      us.map (·.name) = expected.take done.length ∧ expected[done.length]? = some name ∧
      addRecord { r with units := r.units ++ us.map Component.close } name line = .error d ∧
      k = number + done.length := by
  induction expected generalizing lines r number with
  | nil => cases h
  | cons name names ih =>
    cases lines with
    | nil => cases h
    | cons line lines =>
      rw [addRecords] at h
      split at h
      case h_2 e he =>
        cases h
        exact ⟨[], line, lines, [], name, rfl, .nil, rfl, rfl, by simpa using he, rfl⟩
      case h_1 r' hr' =>
        obtain ⟨u, hu, hname, -, rfl⟩ := (addRecord_eq_ok_iff r r' name line hopen).mp hr'
        obtain ⟨done, bad, rest, us, other, rfl, hdone, hnames, hother, hbad, rfl⟩ :=
          ih lines { r with units := r.units ++ [u.close] } (number + 1) hopen h
        refine ⟨line :: done, bad, rest, u :: us, other, rfl, .cons hu hdone, ?_, hother, ?_, ?_⟩
        · rw [List.map_cons, hname, hnames, List.length_cons, List.take_succ_cons]
        · simpa using hbad
        · rw [List.length_cons]
          omega

theorem significantLines_eq_significant (text : List Char) :
    significantLines text = Text.significant (Text.pieces '\n' text) := rfl

/-- A line that counts stands somewhere among all the lines, those before it in front of it. -/
theorem exists_place (ls done rest : List (List Char)) (line : List Char)
    (h : Text.significant ls = done ++ line :: rest) : ∃ before after,
      ls = before ++ line :: after ∧ Text.significant before = done ∧
      Text.allBlank line = false := by
  obtain ⟨front, back, rfl, hfront, hback⟩ := List.filter_eq_append_iff.mp h
  obtain ⟨blanks, after, rfl, hblanks, hfull, -⟩ := List.filter_eq_cons_iff.mp hback
  refine ⟨front ++ blanks, after, by simp, ?_, by simpa using hfull⟩
  have hnone : Text.significant blanks = [] := List.filter_eq_nil_iff.mpr hblanks
  rw [Text.significant_append, hnone, List.append_nil]
  exact hfront

/-- A defect with a line number is the failure of some line, which is numbered among the lines that
are not blank. -/
theorem decode_fails (text : String) (source : Option String) (m : Malformed) (n : Nat)
    (h : decode text source = .error m) (hline : m.line = some n) : ∃ before line after,
      Text.pieces '\n' text.toList = before ++ line :: after ∧ Text.allBlank line = false ∧
      Fails before line m.defect ∧ n = (Text.significant before).length + 1 := by
  have hfault := (decode_eq_error_iff text source m).mp h
  unfold contents at hfault
  split at hfault
  case h_1 =>
    cases hfault
    cases hline
  case h_2 first records hlines =>
    rw [significantLines_eq_significant] at hlines
    split at hfault
    case h_1 e he =>
      cases hfault
      cases hline
      obtain ⟨before, after, hplace, hbefore, hfull⟩ := exists_place _ [] records first hlines
      exact ⟨before, first, after, hplace, hfull, .header hbefore he, by rw [hbefore]; rfl⟩
    case h_2 header hheader =>
      split at hfault
      case isTrue =>
        cases hfault
        cases hline
      case isFalse =>
        obtain ⟨⟨d, k⟩, hadd, rfl⟩ := Option.map_eq_some_iff.mp hfault
        cases hline
        obtain ⟨done, line, rest, us, expected, rfl, hdone, hnames, hexpected, hbad, rfl⟩ :=
          addRecords_fault header.units records {} _ 2 _ d rfl (Prod.ext rfl hadd)
        obtain ⟨before, after, hplace, hbefore, hfull⟩ :=
          exists_place _ (first :: done) rest line hlines
        refine ⟨before, line, after, hplace, hfull, ?_, ?_⟩
        · exact .record first done header us expected hbefore hheader hdone hnames hexpected hbad
        · rw [hbefore, List.length_cons]
          omega

/-- A line feed at its end does not make a line a record, or another one. -/
theorem readComponent_ended (piece line : List Char) (h : Text.Ended piece line) (u : Component) :
    readComponent line = .ok u ↔ readComponent piece = .ok u := by
  rw [readComponent_eq_ok_iff, readComponent_eq_ok_iff, spellsRecord_ended piece line h]

theorem not_mem_take (names : List String) (hdistinct : names.Nodup) (i : Nat) (name : String)
    (h : names[i]? = some name) : name ∉ names.take i := by
  rw [← List.take_append_drop i names, List.nodup_append] at hdistinct
  have hlater : name ∈ names.drop i := by
    rw [List.mem_iff_getElem?]
    exact ⟨0, by rwa [List.getElem?_drop]⟩
  exact fun hmem => hdistinct.2.2 name hmem name hlater rfl

section
variable (text : String) (before after : List (List Char)) (line : List Char) (d : Defect)
  (hplace : Text.pieces '\n' text.toList = before ++ line :: after) (hfails : Fails before line d)
  (r : Reader) (hfirst : Text.allBlank ((Text.lines text.toList).headD []) = false)
  (hheader : Header.read ((Text.lines text.toList).headD []) = .ok r.header)
include hplace hfails hfirst hheader

/-- Where a reader has a header, it is a record that fails, and the header is the first line. -/
theorem exists_header : ∃ first between us expected, before = first :: between ∧
    Text.significant before = first :: Text.significant between ∧
    List.Forall₂ SpellsRecord (Text.significant between) us ∧
    us.map (·.name) = r.names.take (Text.significant between).length ∧
    r.names[(Text.significant between).length]? = some expected ∧
    addRecord ⟨us.map Component.close, false⟩ expected line = .error d := by
  obtain ⟨p, ps, hps, hend, -⟩ := Text.exists_lines text.toList
  have hpfull : Text.allBlank p = false := by rw [← hend.allBlank, hfirst]
  obtain ⟨version, hread⟩ := (headerRead_ended p _ hend r.names).mp ⟨_, hheader⟩
  rw [hplace] at hps
  cases before with
  | nil =>
    obtain ⟨rfl, -⟩ := List.cons.inj hps
    cases hfails with
    | header _ hdefect =>
      rw [hread] at hdefect
      cases hdefect
    | record first records h us expected hbefore => cases hbefore
  | cons first between =>
    obtain ⟨rfl, -⟩ := List.cons.inj hps
    have hcounts : Text.significant (first :: between) = first :: Text.significant between := by
      rw [Text.significant_cons, hpfull]
      rfl
    cases hfails with
    | header hnone =>
      rw [hcounts] at hnone
      cases hnone
    | record first records h us expected hbefore hheader' hrecords hnames hexpected hdefect =>
      rw [hcounts] at hbefore
      obtain ⟨rfl, rfl⟩ := List.cons.inj hbefore
      rw [hread] at hheader'
      cases hheader'
      exact ⟨_, between, us, expected, rfl, hcounts, hrecords, hnames, hexpected, hdefect⟩

/-- A reader that looks up the failing record reports the line where it stands. -/
theorem get_fails (hdistinct : r.names.Nodup) (hfull : Text.allBlank line = false) :
    ∃ name m, 1 ≤ (Text.significant before).length ∧
      r.names[(Text.significant before).length - 1]? = some name ∧
      r.get ⟨Text.lines text.toList, none⟩ name = .error (.malformed m) ∧
      m.line = some (before.length + 1) := by
  obtain ⟨first, between, us, expected, rfl, hcounts, hrecords, hnames, hexpected, hdefect⟩ :=
    exists_header text before after line d hplace hfails r hfirst hheader
  obtain ⟨met, rest, hmet, hend⟩ := Text.exists_linesOf_cons line after (Text.ne_nil_of_full line hfull)
  have hlines : Text.lines text.toList =
      (first ++ ['\n']) :: (between.map (· ++ ['\n']) ++ met :: rest) := by
    rw [Text.lines_eq, hplace, Text.linesOf_append, hmet]
    rfl
  have hrecord := Reader.records_at (first ++ ['\n']) met (between.map (· ++ ['\n'])) rest none
    (hend.allBlank.trans hfull)
  rw [← hlines, Text.length_significant_ended, List.length_map] at hrecord
  have hget := r.get_at _ _ _ expected met hdistinct hexpected hrecord
  rw [hcounts]
  cases hread : readComponent met with
  | error e =>
    rw [hread] at hget
    exact ⟨expected, _, Nat.le_add_left 1 _, hexpected, hget, rfl⟩
  | ok u =>
    -- the record can be read, so that it is another unit's: a repeated name is not opened at all
    have hother : u.name ≠ expected := by
      rintro rfl
      have hspells := (readComponent_eq_ok_iff line u).mp ((readComponent_ended line met hend u).mp hread)
      have hnew : u.name ∉ Registry.names ⟨us.map Component.close, false⟩ := by
        rw [Registry.names, Component.map_name_close, hnames]
        exact not_mem_take r.names hdistinct _ _ hexpected
      rw [(addRecord_eq_ok_iff _ _ _ line rfl).mpr ⟨u, hspells, rfl, hnew, rfl⟩] at hdefect
      cases hdefect
    rw [hread] at hget
    exact ⟨expected, _, Nat.le_add_left 1 _, hexpected, hget.trans (if_neg hother), rfl⟩

end

/-- What a defect with a line number is about, and how far the number is from the line: it is the
failing header or record, and the number falls behind its line by the blank lines before it. A
reader of a file with the text that opens looks up the same record in vain, and reports the line
itself. -/
theorem reported_line (text : String) (source : Option String) (m : Malformed) (n : Nat)
    (h : decode text source = .error m) (hline : m.line = some n) : ∃ before line after,
      Text.pieces '\n' text.toList = before ++ line :: after ∧ Text.allBlank line = false ∧
      Fails before line m.defect ∧ n + before.countP Text.allBlank = before.length + 1 ∧
      ∀ (path content : String) (host host' : Host) (reader : Reader),
        host.disk.readFile path = .ok content.toUTF8 →
        Text.unifyNewlines content.toList = text.toList →
        (openFile path).run host = (.ok reader, host') →
        ∃ name m', 2 ≤ n ∧ reader.names[n - 2]? = some name ∧
          (reader.getFrom name).run host = (.error (.malformed m'), host) ∧
          m'.line = some (before.length + 1) := by
  obtain ⟨before, line, after, hplace, hfull, hfails, rfl⟩ := decode_fails text source m n h hline
  have hcount := Text.length_eq_significant_add before
  refine ⟨before, line, after, hplace, hfull, hfails, by omega, ?_⟩
  intro path content host host' reader hfile htext hopen
  obtain ⟨hfirst, hheader, hpath, hdistinct⟩ :=
    (openFile_eq_ok_iff path content host hfile reader).mp ⟨host', hopen⟩
  rw [firstIn, linesIn, htext] at hfirst hheader
  obtain ⟨name, m', hpos, hname, hget, hnumber⟩ :=
    get_fails text before after line m.defect hplace hfails reader hfirst hheader hdistinct hfull
  refine ⟨name, m', by omega, hname, ?_, hnumber⟩
  rw [run_getFrom path content host hfile reader hpath name, linesIn, htext, hget]
  rfl

/-- A blank line between the header and records that are none. -/
def gapped : String :=
  underHeader pair ["", "[]", "[]"]

theorem decode_gapped :
    decode gapped none = .error ⟨.unitNotObject "list", none, some 2⟩ := by decide +kernel

theorem open_gapped : ∃ host', (openFile "a").run (holding gapped) =
    (.ok ⟨"a", 1, ["a", "b"]⟩, host') := by
  have hopen : ((openFile "a").run (holding gapped)).1 = .ok ⟨"a", 1, ["a", "b"]⟩ := by
    decide +kernel
  exact Effect.exists_state_of_fst _ _ hopen

theorem reported_line_gapped : ∃ before line after name m,
    Text.pieces '\n' gapped.toList = before ++ line :: after ∧ Text.allBlank line = false ∧
    Fails before line (.unitNotObject "list") ∧
    2 + before.countP Text.allBlank = before.length + 1 ∧ ["a", "b"][0]? = some name ∧
    (Reader.getFrom ⟨"a", 1, ["a", "b"]⟩ name).run (holding gapped) =
      (.error (.malformed m), holding gapped) ∧ m.line = some (before.length + 1) := by
  obtain ⟨before, line, after, hplace, hfull, hfails, hnumber, hreader⟩ :=
    reported_line gapped none _ 2 decode_gapped rfl
  obtain ⟨host', hopen⟩ := open_gapped
  have hunified : Text.unifyNewlines gapped.toList = gapped.toList := by decide +kernel
  obtain ⟨name, m, -, hname, hget, hline⟩ :=
    hreader "a" gapped (holding gapped) host' _ (readFile_holding gapped) hunified hopen
  exact ⟨before, line, after, name, m, hplace, hfull, hfails, hnumber, hname, hget, hline⟩

/-- The number that is reported for the first record is that of the blank line, where a lookup
reports the next one. -/
theorem reported_line_blank :
    decode gapped none = .error ⟨.unitNotObject "list", none, some 2⟩ ∧
    (Text.pieces '\n' gapped.toList)[2 - 1]? = some [] ∧
    (∃ host', (openFile "a").run (holding gapped) = (.ok ⟨"a", 1, ["a", "b"]⟩, host')) ∧
    (Reader.getFrom ⟨"a", 1, ["a", "b"]⟩ "a").run (holding gapped) =
      (.error (.malformed ⟨.unitNotObject "list", some "a", some 3⟩), holding gapped) := by
  refine ⟨decode_gapped, by decide +kernel, open_gapped, ?_⟩
  have hget : Reader.get ⟨"a", 1, ["a", "b"]⟩ ⟨linesIn gapped, none⟩ "a" =
      .error (.malformed ⟨.unitNotObject "list", some "a", some 3⟩) := by decide +kernel
  rw [run_getFrom "a" gapped _ (readFile_holding gapped) ⟨"a", 1, ["a", "b"]⟩ rfl "a", hget]
  rfl

end Artifact

end DocNavigation
