import DocNavigation.Proofs.Artifact.Reader
import DocNavigation.Proofs.Artifact.Written

/-!
Opening artifact files and looking into them, as operations on a machine whose file holds a text. The
records beside the one that is looked up may be anything that fills one line: the lookup counts their
lines and reads none of them.
-/

namespace DocNavigation.Artifact

/-- The lines of a file that holds a text. -/
def linesIn (content : String) : List (List Char) :=
  Text.lines (Text.unifyNewlines content.toList)

def firstIn (content : String) : List Char :=
  (linesIn content).headD []

def recordsIn (content : String) : List (List Char) :=
  Text.significant (linesIn content).tail

theorem spells_iff_file (content : String) (us : List Component)
    (hfull : Text.allBlank (firstIn content) = false) :
    Spells (String.ofList (Text.unifyNewlines content.toList)) us ↔ (us.map (·.name)).Nodup ∧
      (∃ version, Header.read (firstIn content) = .ok ⟨version, us.map (·.name)⟩) ∧
      List.Forall₂ SpellsRecord (recordsIn content) us :=
  spells_iff_lines _ us hfull

/-- Lines without line ends in them are met as they are. -/
theorem linesIn_ended (ls : List String) (hne : ls ≠ [])
    (hfeed : ∀ l ∈ ls, '\n' ∉ l.toList) (hreturn : ∀ l ∈ ls, '\r' ∉ l.toList) :
    linesIn ("\n".intercalate ls ++ "\n") = ls.map fun l => l.toList ++ ['\n'] := by
  have htext : ("\n".intercalate ls ++ "\n").toList =
      ['\n'].intercalate (ls.map String.toList) ++ ['\n'] := by
    rw [String.toList_append, String.toList_intercalate]
    rfl
  have hnone : '\r' ∉ ['\n'].intercalate (ls.map String.toList) ++ ['\n'] := by
    intro hmem
    rcases List.mem_append.mp hmem with hmem | hmem
    · rcases Text.mem_intercalate '\n' _ _ hmem with heq | ⟨l, hl, hmem⟩
      · exact absurd heq (by decide)
      · obtain ⟨s, hs, rfl⟩ := List.mem_map.mp hl
        exact hreturn s hs hmem
    · exact absurd hmem (by decide)
  have hpieces :=
    Text.pieces_ended (ls.map String.toList) (List.forall_mem_map.mpr hfeed) (by simpa)
  rw [linesIn, htext, Text.unifyNewlines_of_noReturn _ hnone, Text.lines_eq, hpieces]
  simp [Text.linesOf]

section
variable (path content : String) (host : Host)
  (hfile : host.disk.readFile path = .ok content.toUTF8)

include hfile in
theorem streamOf_text : streamOf host.disk path = .ok ⟨linesIn content, none⟩ := by
  rw [streamOf, Disk.bytes, hfile]
  change Except.ok (LineStream.ofBytes content.toUTF8) = _
  rw [LineStream.ofBytes, Text.Utf8.decodeStream_toUTF8]
  rfl

include hfile in
theorem readText_text : host.disk.readText path =
    .ok (String.ofList (Text.unifyNewlines content.toList)) :=
  Disk.readText_toUTF8 host.disk path content hfile

include hfile in
theorem load_eq_ok_iff (r : Registry) : (∃ host', (load path).run host = (.ok r, host')) ↔
    ∃ us, Spells (String.ofList (Text.unifyNewlines content.toList)) us ∧
      r = ⟨us.map Component.close, true⟩ := by
  rw [← decode_eq_ok_iff _ (some path), load, Effect.run_bind, Act.run_look,
    readText_text path content host hfile]
  simp only
  rw [run_read, Effect.exists_state_iff, Result.mapError_eq_ok_iff]

include hfile in
theorem run_openFile : ∃ notes, (openFile path).run host =
    ((Reader.opened path (firstIn content)).mapError .ofReader,
      { host with journal := host.journal ++ notes }) := by
  rw [openFile, Effect.run_bind, Act.run_look, streamOf_text path content host hfile]
  simp only
  rw [firstIn, ← Reader.openStream_whole]
  cases linesIn content with
  | nil =>
    refine ⟨[], ?_⟩
    simp only [List.append_nil]
    exact Act.run_lift _ host
  | cons first rest =>
    cases hheader : Header.read first with
    | error e =>
      refine ⟨[], ?_⟩
      simp only [hheader, List.append_nil]
      exact Act.run_lift _ host
    | ok h =>
      refine ⟨h.notes, ?_⟩
      simp only [hheader]
      rw [Effect.run_bind, Act.run_notes]
      exact Act.run_lift _ _

include hfile in
theorem openFile_eq_ok_iff (r : Reader) : (∃ host', (openFile path).run host = (.ok r, host')) ↔
    Text.allBlank (firstIn content) = false ∧ Header.read (firstIn content) = .ok r.header ∧
      r.path = path ∧ r.names.Nodup := by
  obtain ⟨notes, hrun⟩ := run_openFile path content host hfile
  rw [hrun, Effect.exists_state_iff, Result.mapError_eq_ok_iff, Reader.opened_eq_ok_iff]

include hfile in
/-- A lookup changes nothing, and a name that the header does not list needs no file. -/
theorem run_getFrom (r : Reader) (hpath : r.path = path) (n : String) : (r.getFrom n).run host =
    ((r.get ⟨linesIn content, none⟩ n).mapError .ofReader, host) := by
  rw [Reader.getFrom]
  split
  case isTrue =>
    rw [Effect.run_bind, Act.run_look, hpath, streamOf_text path content host hfile]
    exact Act.run_lift _ host
  case isFalse hnot =>
    have hmem : n ∉ r.names := by simpa [Reader.contains] using hnot
    rw [Reader.get_of_not_mem _ _ _ hmem]
    rfl

end

/-- A machine with one file in its root folder. -/
def holding (text : String) : Host :=
  { disk := { workdir := [], entries := [(["a"], .file text.toUTF8)] } }

theorem readFile_holding (text : String) :
    (holding text).disk.readFile "a" = .ok text.toUTF8 := by rfl

/-- A text that fills a line of its own. -/
structure OneLine (line : String) : Prop where
  full : Text.allBlank line.toList = false
  noFeed : '\n' ∉ line.toList
  noReturn : '\r' ∉ line.toList

/-- The header of a registry over lines of any kind. -/
def underHeader (r : Registry) (lines : List String) : String :=
  "\n".intercalate ((header r).write Json.compact :: lines) ++ "\n"

def recordText (u : Component) : String :=
  u.toJson.write Json.compact

theorem encode_eq (r : Registry) : encode r = underHeader r (r.units.map recordText) := by
  rw [encode, records, List.map_cons, List.map_map]
  rfl

theorem spellsRecord_recordText (u : Component) (hu : u.WellFormed) :
    SpellsRecord ((recordText u).toList ++ ['\n']) u.copy := by
  rw [spellsRecord_ended (recordText u).toList _ (.inr rfl)]
  refine ⟨u.toJson, ?_, Component.spells_toJson u hu⟩
  rw [String.ofList_toList]
  exact Json.read_write _ (Component.toJson_restorable u hu)

/-- The records of all units but the named one may have been exchanged for other lines. -/
def Damaged (n : String) (units : List Component) (lines : List String) : Prop :=
  List.Forall₂ (fun u line => line = recordText u ∨ u.name ≠ n ∧ OneLine line) units lines

theorem Damaged.none (n : String) (units : List Component) :
    Damaged n units (units.map recordText) := by
  rw [Damaged, List.forall₂_map_right_iff, List.forall₂_same]
  exact fun _ _ => .inl rfl

section
variable (r : Registry) (hr : ∀ u ∈ r.units, u.WellFormed)

include hr in
theorem oneLine_of_value (v : Json) (hv : v ∈ values r) : OneLine (v.write Json.compact) := by
  have hprintable := Json.printable_text v (values_restorable r hr v hv)
  refine ⟨?_, ?_, ?_⟩
  · obtain ⟨fields, rfl⟩ := values_isObj r v hv
    have hbrace : Text.isBlank '\x7b' = false := by decide
    change Text.allBlank (Json.text (.obj fields)) = false
    simp [Json.text_obj, Text.allBlank, hbrace]
  · intro hfeed
    exact absurd (hprintable _ hfeed) (by decide)
  · intro hreturn
    exact absurd (hprintable _ hreturn) (by decide)

include hr in
theorem oneLine_of_damaged (n : String) (lines : List String) (h : Damaged n r.units lines) :
    ∀ line ∈ lines, OneLine line := by
  intro line hline
  obtain ⟨u, hu, hrecord⟩ := Result.exists_left_of_mem h line hline
  rcases hrecord with rfl | ⟨-, hone⟩
  · exact oneLine_of_value r hr _ (List.mem_cons_of_mem _ (List.mem_map_of_mem hu))
  · exact hone

include hr in
theorem linesIn_underHeader (lines : List String) (h : ∀ line ∈ lines, OneLine line) :
    linesIn (underHeader r lines) =
      ((header r).write Json.compact :: lines).map fun l => l.toList ++ ['\n'] := by
  have hheader := oneLine_of_value r hr (header r) (List.mem_cons_self ..)
  apply linesIn_ended
  · exact List.cons_ne_nil _ _
  · exact List.forall_mem_cons.mpr ⟨hheader.noFeed, fun l hl => (h l hl).noFeed⟩
  · exact List.forall_mem_cons.mpr ⟨hheader.noReturn, fun l hl => (h l hl).noReturn⟩

include hr in
theorem recordsIn_underHeader (lines : List String) (h : ∀ line ∈ lines, OneLine line) :
    recordsIn (underHeader r lines) = lines.map fun l => l.toList ++ ['\n'] := by
  rw [recordsIn, linesIn_underHeader r hr lines h, List.map_cons, List.tail_cons, Text.significant,
    List.filter_eq_self, List.forall_mem_map]
  intro l hl
  have hend : Text.Ended l.toList (l.toList ++ ['\n']) := .inr rfl
  rw [hend.allBlank, (h l hl).full]
  rfl

include hr in
theorem names_ne_empty : "" ∉ r.names := by
  intro hempty
  obtain ⟨u, hu, hname⟩ := List.mem_map.mp hempty
  have hsegment := (hr u hu).name
  rw [hname] at hsegment
  exact absurd hsegment (by decide)

include hr in
theorem ended_firstIn (lines : List String) (h : ∀ line ∈ lines, OneLine line) :
    Text.Ended ((header r).write Json.compact).toList (firstIn (underHeader r lines)) := by
  rw [firstIn, linesIn_underHeader r hr lines h]
  exact .inr rfl

include hr in
theorem allBlank_firstIn (lines : List String) (h : ∀ line ∈ lines, OneLine line) :
    Text.allBlank (firstIn (underHeader r lines)) = false :=
  (ended_firstIn r hr lines h).allBlank.trans
    (oneLine_of_value r hr (header r) (List.mem_cons_self ..)).full

include hr in
/-- Whatever follows the header, the reader opens and lists the names of the registry. -/
theorem openFile_underHeader (path : String) (lines : List String) (host : Host)
    (hnames : r.names.Nodup) (h : ∀ line ∈ lines, OneLine line)
    (hfile : host.disk.readFile path = .ok (underHeader r lines).toUTF8) :
    ∃ reader host', (openFile path).run host = (.ok reader, host') ∧ reader.path = path ∧
      reader.names = r.names := by
  have hread :
      Json.read (String.ofList ((header r).write Json.compact).toList) = .ok (header r) := by
    rw [String.ofList_toList]
    exact Json.read_write _ (header_restorable r)
  have hannounces : Announces (header r) r.names := ⟨_, 1, rfl, rfl, rfl, by decide, rfl⟩
  obtain ⟨version, hheader⟩ := (headerRead_ended _ _ (ended_firstIn r hr lines h) r.names).mpr
    ((headerRead_eq_ok_iff _ r.names).mpr ⟨header r, hread, hannounces, names_ne_empty r hr⟩)
  obtain ⟨host', hopen⟩ := (openFile_eq_ok_iff path _ host hfile ⟨path, version, r.names⟩).mpr
    ⟨allBlank_firstIn r hr lines h, hheader, rfl, hnames⟩
  exact ⟨_, host', hopen, rfl, rfl⟩

include hr in
theorem get_underHeader (reader : Reader) (n : String) (u : Component) (lines : List String)
    (hnames : r.names.Nodup) (hreader : reader.names = r.names) (hu : r.get n = .ok u)
    (hdamage : Damaged n r.units lines) :
    reader.get ⟨linesIn (underHeader r lines), none⟩ n = .ok u.close := by
  obtain ⟨hmem, rfl⟩ := (Registry.get_eq_ok_iff r hnames n u).mp hu
  obtain ⟨i, hi⟩ := List.mem_iff_getElem?.mp hmem
  obtain ⟨line, hline, hrecord⟩ := Result.exists_left_of_getElem? hdamage.flip i u hi
  -- names are distinct, so the line of this unit is not among the exchanged ones
  have hkept : line = recordText u := hrecord.resolve_right fun h => h.1 rfl
  have hname : reader.names[i]? = some u.copy.name := by
    rw [hreader, Registry.names, List.getElem?_map, hi]
    rfl
  have hplace : (recordsIn (underHeader r lines))[i]? = some (line.toList ++ ['\n']) := by
    rw [recordsIn_underHeader r hr lines (oneLine_of_damaged r hr _ lines hdamage),
      List.getElem?_map, hline]
    rfl
  have hspells : SpellsRecord (line.toList ++ ['\n']) u.copy :=
    hkept ▸ spellsRecord_recordText u (hr u hmem)
  have hget := Reader.get_of_record reader ⟨linesIn (underHeader r lines), none⟩ i _ u.copy
    (hreader ▸ hnames) hname hplace hspells
  rw [Component.close_copy] at hget
  exact hget

end

/-- The lookup gives the unit, sealed, and changes nothing. -/
def Reader.Finds (reader : Reader) (host : Host) (n : String) (u : Component) : Prop :=
  ∃ v, (reader.getFrom n).run host = (.ok v, host) ∧ v.isSealed = true ∧ v.same u = true

theorem finds_underHeader (r : Registry) (hr : ∀ u ∈ r.units, u.WellFormed) (reader : Reader)
    (host : Host) (n : String) (u : Component) (lines : List String) (hnames : r.names.Nodup)
    (hreader : reader.names = r.names) (hu : r.get n = .ok u) (hdamage : Damaged n r.units lines)
    (hfile : host.disk.readFile reader.path = .ok (underHeader r lines).toUTF8) :
    reader.Finds host n u := by
  refine ⟨u.close, ?_, Component.isSealed_close u, Component.close_same u⟩
  rw [run_getFrom reader.path _ host hfile reader rfl n,
    get_underHeader r hr reader n u lines hnames hreader hu hdamage]
  rfl

/-- A lookup reads the record of its unit and no other: with any other lines in the place of the
other records it finds the unit. Without damage it finds every unit of the registry, and no name
besides. -/
theorem lookup_local (r : Registry) (hr : r.Reachable) (path : String) :
    (∀ n u lines (host : Host), r.get n = .ok u → Damaged n r.units lines →
      host.disk.readFile path = .ok (underHeader r lines).toUTF8 →
      ∃ reader host', (openFile path).run host = (.ok reader, host') ∧ reader.names = r.names ∧
        ∀ k : Host, k.disk.readFile path = .ok (underHeader r lines).toUTF8 →
          reader.Finds k n u) ∧
    (∀ host : Host, host.disk.readFile path = .ok (encode r).toUTF8 →
      ∃ reader host', (openFile path).run host = (.ok reader, host') ∧ reader.names = r.names ∧
        ∀ k : Host, k.disk.readFile path = .ok (encode r).toUTF8 →
          (∀ n u, r.get n = .ok u → reader.Finds k n u) ∧
          ∀ n, n ∉ r.names →
            (reader.getFrom n).run k = (.error (.registry (.notFound n)), k)) := by
  obtain ⟨hnames, hbuilt⟩ := Registry.Reachable.sound r hr
  have hwell := fun u hu => Component.Built.wellFormed u (hbuilt u hu)
  refine ⟨?_, ?_⟩
  · intro n u lines host hu hdamage hfile
    have hlines := oneLine_of_damaged r hwell n lines hdamage
    obtain ⟨reader, host', hopen, rfl, hreader⟩ :=
      openFile_underHeader r hwell path lines host hnames hlines hfile
    refine ⟨reader, host', hopen, hreader, ?_⟩
    intro k hk
    exact finds_underHeader r hwell reader k n u lines hnames hreader hu hdamage hk
  · intro host hfile
    rw [encode_eq] at hfile ⊢
    have hlines := oneLine_of_damaged r hwell "" _ (Damaged.none "" r.units)
    obtain ⟨reader, host', hopen, rfl, hreader⟩ :=
      openFile_underHeader r hwell path _ host hnames hlines hfile
    refine ⟨reader, host', hopen, hreader, ?_⟩
    intro k hk
    refine ⟨?_, ?_⟩
    · intro n u hu
      have hnone := Damaged.none n r.units
      exact finds_underHeader r hwell reader k n u _ hnames hreader hu hnone hk
    · intro n hn
      rw [run_getFrom reader.path _ k hk reader rfl n, Reader.get_of_not_mem _ _ _ (hreader ▸ hn)]
      rfl

/-- Two units without anything in them. -/
def pair : Registry where
  units := [⟨"a", .node "" true [] [], ⟨[], true⟩⟩, ⟨"b", .node "" true [] [], ⟨[], true⟩⟩]

theorem pair_reachable : pair.Reachable := by
  have hfirst : Registry.Reachable ⟨[⟨"a", .node "" true [] [], ⟨[], true⟩⟩], false⟩ :=
    .register {} _ (.str "a") (Tree.empty "") {} _ .empty (.empty "") .empty rfl
  exact .register _ _ (.str "b") (Tree.empty "") {} _ hfirst (.empty "") .empty rfl

/-- The second unit is found behind a first record that is none. -/
theorem lookup_local_pair : pair.Reachable ∧ ∃ u reader host', pair.get "b" = .ok u ∧
    (openFile "a").run (holding (underHeader pair ["]", recordText u])) = (.ok reader, host') ∧
    reader.names = ["a", "b"] ∧
    reader.Finds (holding (underHeader pair ["]", recordText u])) "b" u := by
  have hu : pair.get "b" = .ok ⟨"b", .node "" true [] [], ⟨[], true⟩⟩ := by rfl
  have hdamage : Damaged "b" pair.units ["]", recordText ⟨"b", .node "" true [] [], ⟨[], true⟩⟩] :=
    .cons (.inr ⟨by decide, by decide, by decide, by decide⟩) (.cons (.inl rfl) .nil)
  obtain ⟨reader, host', hopen, hnames, hfinds⟩ :=
    (lookup_local pair pair_reachable "a").1 "b" _ _ _ hu hdamage (readFile_holding _)
  exact ⟨pair_reachable, _, reader, host', hu, hopen, hnames, hfinds _ (readFile_holding _)⟩

end DocNavigation.Artifact
