import DocNavigation.Proofs.Artifact.Lookup

/-!
Looking into an artifact file without loading it, compared with loading it. What loads is seen the
same way by a reader, unless it begins with a blank line; what a reader iterates over without an
error need not load.
-/

namespace DocNavigation.Artifact

/-- Looking up a name in the lines and in the registry comes to the same. -/
theorem get_agrees (reader : Reader) (lines : List (List Char)) (us : List Component)
    (frozen : Bool) (hnames : reader.names = us.map (·.name)) (hdistinct : (us.map (·.name)).Nodup)
    (hrecords : List.Forall₂ SpellsRecord (Text.significant lines.tail) us) (n : String) :
    (reader.get ⟨lines, none⟩ n).mapError Fault.ofReader =
      (Registry.get ⟨us.map Component.close, frozen⟩ n).mapError Fault.registry := by
  rw [Registry.get, Registry.get?, Component.find?_map_close]
  cases hfind : us.find? (·.name = n) with
  | none =>
    have hmem : n ∉ reader.names := by
      rw [hnames, List.mem_map]
      rintro ⟨u, hu, hname⟩
      exact absurd (decide_eq_true hname) (List.find?_eq_none.mp hfind u hu)
    rw [Reader.get_of_not_mem _ _ _ hmem]
    rfl
  | some u =>
    obtain ⟨hu, rfl⟩ := (Component.find?_eq_some_iff us hdistinct n u).mp hfind
    -- the reader counts records, so the place in the registry is the place among the lines
    obtain ⟨i, hi⟩ := List.mem_iff_getElem?.mp hu
    have hname : reader.names[i]? = some u.name := by
      rw [hnames, List.getElem?_map, hi]
      rfl
    obtain ⟨line, hline, hrecord⟩ := Result.exists_left_of_getElem? hrecords i u hi
    rw [Reader.get_of_record reader _ i line u (hnames ▸ hdistinct) hname hline hrecord]
    rfl

section
variable (path content : String) (host : Host)
  (hfile : host.disk.readFile path = .ok content.toUTF8)

include hfile in
/-- Whoever looks into a file that loads finds what loading gives, unless the first line is blank:
loading passes over blank lines at the start, and the reader takes them for an empty artifact. -/
theorem lazy_agrees (host' : Host) (r : Registry) (hload : (load path).run host = (.ok r, host')) :
    (Text.allBlank (firstIn content) = true → ∃ host'', (openFile path).run host =
      (.error (.malformed ⟨.empty, some path, none⟩), host'')) ∧
    (Text.allBlank (firstIn content) = false → ∃ reader host'',
      (openFile path).run host = (.ok reader, host'') ∧ reader.names = r.names ∧
      (∀ n, reader.contains n = r.contains n) ∧ (∀ u ∈ r.units, u.isSealed = true) ∧
      ∀ k : Host, k.disk.readFile path = .ok content.toUTF8 →
        (∀ n, (reader.getFrom n).run k = ((r.get n).mapError .registry, k)) ∧
        ∃ s, streamOf k.disk reader.path = .ok s ∧ reader.units s = (r.units, none)) := by
  obtain ⟨us, hspells, rfl⟩ := (load_eq_ok_iff path content host hfile r).mp ⟨host', hload⟩
  refine ⟨?_, ?_⟩
  · intro hblank
    obtain ⟨notes, hrun⟩ := run_openFile path content host hfile
    rw [hrun, Reader.opened, if_pos hblank]
    exact ⟨_, rfl⟩
  · intro hfull
    obtain ⟨hdistinct, ⟨version, hheader⟩, hrecords⟩ :=
      (spells_iff_file content us hfull).mp hspells
    obtain ⟨reader, hreader⟩ : ∃ reader : Reader, reader = ⟨path, version, us.map (·.name)⟩ :=
      ⟨_, rfl⟩
    have hpath : reader.path = path := by rw [hreader]
    have hnames : reader.names = us.map (·.name) := by rw [hreader, Reader.names]
    obtain ⟨host'', hrun⟩ : ∃ host'', (openFile path).run host = (.ok reader, host'') := by
      rw [openFile_eq_ok_iff path content host hfile, hreader]
      exact ⟨hfull, hheader, rfl, hdistinct⟩
    refine ⟨reader, host'', hrun, ?_, ?_, ?_, ?_⟩
    · rw [hnames]
      exact (Component.map_name_close us).symm
    · intro n
      rw [Reader.contains, hnames, Bool.eq_iff_iff, List.contains_iff_mem, Registry.contains_iff,
        Registry.names, Component.map_name_close]
    · rw [List.forall_mem_map]
      exact fun u _ => Component.isSealed_close u
    · intro k hk
      refine ⟨?_, _, hpath.symm ▸ streamOf_text path content k hk, ?_⟩
      · intro n
        rw [run_getFrom path content k hk reader hpath n,
          get_agrees reader _ us true hnames hdistinct hrecords n]
      · have hsize : reader.size = us.length := by rw [Reader.size, hnames, List.length_map]
        apply (Reader.units_eq_none_iff reader _ _).mpr
        exact ⟨hsize ▸ Nat.le_of_eq hrecords.length_eq, us, hrecords, rfl⟩

end

theorem lazy_agrees_pair : ∃ r reader host' host'',
    (load "a").run (holding (encode pair)) = (.ok r, host') ∧
    (openFile "a").run (holding (encode pair)) = (.ok reader, host'') ∧
    reader.names = r.names ∧
    ∃ s, streamOf (holding (encode pair)).disk reader.path = .ok s ∧
      reader.units s = (r.units, none) := by
  have hfile := readFile_holding (encode pair)
  obtain ⟨hnames, hbuilt⟩ := Registry.Reachable.sound pair pair_reachable
  have hwell := fun u hu => Component.Built.wellFormed u (hbuilt u hu)
  have hload := run_load "a" (encode pair) _ (holding (encode pair))
    (readText_encode _ "a" pair hwell hfile) (decode_encode pair _ hnames hwell)
  have hfull : Text.allBlank (firstIn (encode pair)) = false := by
    rw [encode_eq]
    exact allBlank_firstIn pair hwell _ (oneLine_of_damaged pair hwell "" _ (.none "" pair.units))
  obtain ⟨reader, host'', hopen, hsame, -, -, hlook⟩ :=
    (lazy_agrees "a" (encode pair) _ hfile _ _ hload).2 hfull
  exact ⟨_, reader, _, host'', hload, hopen, hsame, (hlook _ hfile).2⟩

/-- A blank line before the header: the file loads, and the reader does not open it. -/
theorem blank_start_refused :
    (∃ host, (load "a").run (holding ("\n" ++ encode {})) = (.ok ⟨[], true⟩, host)) ∧
    ∃ host, (openFile "a").run (holding ("\n" ++ encode {})) =
      (.error (.malformed ⟨.empty, some "a", none⟩), host) := by
  have hload : ((load "a").run (holding ("\n" ++ encode {}))).1 = .ok ⟨[], true⟩ := by
    decide +kernel
  have hopen : ((openFile "a").run (holding ("\n" ++ encode {}))).1 =
      .error (.malformed ⟨.empty, some "a", none⟩) := by
    decide +kernel
  exact ⟨Effect.exists_state_of_fst _ _ hload, Effect.exists_state_of_fst _ _ hopen⟩

section
variable (path content : String) (host : Host)
  (hfile : host.disk.readFile path = .ok content.toUTF8)

include hfile in
/-- An iteration that ends well gives no more units than the header lists, and the file loads if and
only if these are the listed ones in their order. The iteration itself does not tell. -/
theorem units_whole_iff (host' : Host) (reader : Reader)
    (hopen : (openFile path).run host = (.ok reader, host')) : ∃ s,
      streamOf host.disk reader.path = .ok s ∧ ∀ us, reader.units s = (us, none) →
        us.length ≤ reader.size ∧
        ((∃ r host'', (load path).run host = (.ok r, host'')) ↔ us.map (·.name) = reader.names) ∧
        ∀ r host'', (load path).run host = (.ok r, host'') → r.units = us := by
  obtain ⟨hfull, hheader, hpath, hdistinct⟩ :=
    (openFile_eq_ok_iff path content host hfile reader).mp ⟨host', hopen⟩
  refine ⟨_, hpath.symm ▸ streamOf_text path content host hfile, ?_⟩
  intro us hus
  obtain ⟨hlength, vs, hvs, rfl⟩ := (Reader.units_eq_none_iff reader _ us).mp hus
  -- a line spells one unit at most, so what loads cannot differ from what was iterated
  have hloaded : ∀ r host'', (load path).run host = (.ok r, host'') →
      r.units = vs.map Component.close ∧ vs.map (·.name) = reader.names := by
    intro r host'' hload
    obtain ⟨ws, hspells, rfl⟩ := (load_eq_ok_iff path content host hfile r).mp ⟨host'', hload⟩
    obtain ⟨-, ⟨version, hread⟩, hws⟩ := (spells_iff_file content ws hfull).mp hspells
    have hsame : vs = ws := spellsRecord_unique.forall₂ hvs hws
    rw [hheader] at hread
    cases hsame
    exact ⟨rfl, (congrArg Header.units (Except.ok.inj hread)).symm⟩
  refine ⟨?_, ?_, fun r host'' hload => (hloaded r host'' hload).1⟩
  · rw [List.length_map, ← hvs.length_eq]
    exact hlength
  · rw [Component.map_name_close]
    constructor
    · rintro ⟨r, host'', hload⟩
      exact (hloaded r host'' hload).2
    · intro hnames
      refine ⟨⟨vs.map Component.close, true⟩, ?_⟩
      rw [load_eq_ok_iff path content host hfile]
      refine ⟨vs, ?_, rfl⟩
      rw [spells_iff_file content vs hfull]
      refine ⟨?_, ⟨reader.header.version, ?_⟩, hvs⟩
      · rw [hnames]
        exact hdistinct
      · rw [hheader, hnames]
        rfl

end

theorem units_whole_iff_pair : ∃ reader host' s us,
    (openFile "a").run (holding (encode pair)) = (.ok reader, host') ∧
    streamOf (holding (encode pair)).disk reader.path = .ok s ∧ reader.units s = (us, none) ∧
    us.map (·.name) = reader.names ∧
    ∃ r host'', (load "a").run (holding (encode pair)) = (.ok r, host'') ∧ r.units = us := by
  have hfile := readFile_holding (encode pair)
  obtain ⟨hnames, hbuilt⟩ := Registry.Reachable.sound pair pair_reachable
  have hwell := fun u hu => Component.Built.wellFormed u (hbuilt u hu)
  have hlines := oneLine_of_damaged pair hwell "" _ (.none "" pair.units)
  have hrecords :
      List.Forall₂ SpellsRecord (recordsIn (encode pair)) (pair.units.map Component.copy) := by
    rw [encode_eq, recordsIn_underHeader pair hwell _ hlines, List.map_map,
      List.forall₂_map_left_iff, List.forall₂_map_right_iff, List.forall₂_same]
    exact fun u hu => spellsRecord_recordText u (hwell u hu)
  obtain ⟨reader, host', hopen, hpath, hreader⟩ := openFile_underHeader pair hwell "a"
    (pair.units.map recordText) (holding (encode pair)) hnames hlines (encode_eq pair ▸ hfile)
  obtain ⟨s, hs, hwhole⟩ := units_whole_iff "a" (encode pair) _ hfile host' reader hopen
  rw [hpath, streamOf_text "a" _ _ hfile, Except.ok.injEq] at hs
  subst hs
  have hsize : reader.size = (recordsIn (encode pair)).length := by
    rw [hrecords.length_eq, List.length_map, Reader.size, hreader, Registry.names, List.length_map]
  have hunits := (Reader.units_eq_none_iff reader (linesIn (encode pair)) _).mpr
    ⟨Nat.le_of_eq hsize.symm, _, hrecords, rfl⟩
  have hsame : ((pair.units.map Component.copy).map Component.close).map (·.name) = reader.names :=
    hreader.symm
  obtain ⟨-, hloads, hgives⟩ := hwhole _ hunits
  obtain ⟨r, host'', hload⟩ := hloads.mpr hsame
  exact ⟨reader, host', _, _, hopen, hpath ▸ streamOf_text "a" _ _ hfile, hunits, hsame, r, host'',
    hload, hgives r host'' hload⟩

/-- The records are cut off: the iteration ends well, and the file does not load. -/
theorem truncated_iterates : ∃ reader host' s,
    (openFile "a").run (holding (underHeader pair [])) = (.ok reader, host') ∧
    reader.names = ["a", "b"] ∧
    streamOf (holding (underHeader pair [])).disk reader.path = .ok s ∧
    reader.units s = ([], none) ∧
    ∃ host'', (load "a").run (holding (underHeader pair [])) =
      (.error (.malformed ⟨.announced 2 0, some "a", none⟩), host'') := by
  have hfile := readFile_holding (underHeader pair [])
  obtain ⟨hnames, hbuilt⟩ := Registry.Reachable.sound pair pair_reachable
  have hwell := fun u hu => Component.Built.wellFormed u (hbuilt u hu)
  obtain ⟨reader, host', hopen, hpath, hreader⟩ :=
    openFile_underHeader pair hwell "a" [] _ hnames nofun hfile
  have hunits : reader.units ⟨linesIn (underHeader pair []), none⟩ = ([], none) := by
    have hnone := recordsIn_underHeader pair hwell [] nofun
    rw [recordsIn, List.map_nil] at hnone
    rw [Reader.units_eq_none_iff, hnone]
    exact ⟨Nat.zero_le _, [], .nil, rfl⟩
  have hload : ((load "a").run (holding (underHeader pair []))).1 =
      .error (.malformed ⟨.announced 2 0, some "a", none⟩) := by
    decide +kernel
  exact ⟨reader, host', _, hopen, hreader, hpath ▸ streamOf_text "a" _ _ hfile, hunits,
    Effect.exists_state_of_fst _ _ hload⟩

end DocNavigation.Artifact
