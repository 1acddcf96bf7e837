import DocNavigation.Artifact.Decode
import DocNavigation.Proofs.Json.Keys
import DocNavigation.Proofs.Named
import DocNavigation.Proofs.Registry.Add
import DocNavigation.Proofs.Text.Lines

/-!
Which texts spell units: a header line that lists their names, then one line for each of them.
Decoding gives a registry exactly for those.
-/

namespace DocNavigation

/-- The value is an object with a tree and a catalog under the name of the unit. -/
structure Component.Spells (v : Json) (u : Component) : Prop where
  segment : Name.isSegment u.name = true
  parts : ∃ fields tree catalog, v = .obj fields ∧
    Json.getKey? fields "name" = some (.str u.name) ∧
    Json.getKey? fields "tree" = some tree ∧ Tree.Spells true tree u.tree ∧
    Json.getKey? fields "catalog" = some catalog ∧ Catalog.Spells catalog u.catalog

theorem catalog_distinctKeys (fields : List (String × Json)) (catalog : Json)
    (hv : (Json.obj fields).Everywhere Json.DistinctKeys)
    (h : Json.getKey? fields "catalog" = some catalog) : catalog.DistinctKeys := by
  have hmem := (Json.getKey?_eq_some_iff fields hv.1 "catalog" catalog).mp h
  exact Json.here_of_everywhere _ _ ((Json.everywhereFields_iff _ _).mp hv.2 _ hmem)

theorem Component.ofJson_eq_ok_iff (v : Json) (u : Component) (hv : v.Everywhere Json.DistinctKeys) :
    ofJson v = .ok u ↔ Spells v u := by
  constructor
  · intro h
    unfold ofJson at h
    split at h
    case h_2 => cases h
    case h_1 fields =>
      unfold ofFields at h
      split at h
      case h_1 => cases h
      case h_3 => cases h
      case h_2 name hname =>
        split at h
        case h_1 => cases h
        case h_2 hcheck =>
          split at h
          case h_2 => cases h
          case h_1 tree catalog htree hcatalog =>
            split at h
            case h_1 => cases h
            case h_2 t ht =>
              obtain ⟨c, hc, rfl⟩ := (Result.map_eq_ok_iff _ _ _).mp h
              have hkeys := catalog_distinctKeys fields catalog hv hcatalog
              obtain ⟨heq, hsegment⟩ := Name.isSegment_of_check _ _ _ hcheck
              cases heq
              refine ⟨hsegment, fields, tree, catalog, rfl, hname, htree,
                (Tree.ofJson_eq_ok_iff _ _).mp ht, hcatalog, ?_⟩
              exact (Catalog.ofJson_eq_ok_iff _ _ hkeys).mp hc
  · rintro ⟨hsegment, fields, tree, catalog, rfl, hname, htree, ht, hcatalog, hc⟩
    have hkeys := catalog_distinctKeys fields catalog hv hcatalog
    have hcheck := Name.check_str "unit" u.name hsegment
    have htree' := (Tree.ofJson_eq_ok_iff _ _).mpr ht
    have hcatalog' := (Catalog.ofJson_eq_ok_iff _ _ hkeys).mpr hc
    change ofFields fields = _
    unfold ofFields
    split
    case h_1 hempty =>
      rw [hname] at hempty
      injection hempty with hempty
      injection hempty with hempty
      rw [hempty] at hsegment
      exact absurd hsegment (by decide)
    case h_2 name _ hname' =>
      rw [hname] at hname'
      cases hname'
      simp [hcheck, htree, hcatalog, htree', hcatalog', Except.map]
    case h_3 hother => exact absurd hname (hother _)

namespace Artifact

/-- The value is an object of the format, of some version, that lists the names. -/
def Announces (v : Json) (names : List String) : Prop :=
  ∃ fields version, v = .obj fields ∧ Json.getKey? fields "format" = some (.str "navindex") ∧
    Json.getKey? fields "version" = some (.int version) ∧ 1 ≤ version ∧
    Json.getKey? fields "units" = some (.arr (names.map .str))

def SpellsRecord (line : List Char) (u : Component) : Prop :=
  ∃ v, Json.read (String.ofList line) = .ok v ∧ Component.Spells v u

/-- The lines that are not blank are a header and records, and no name comes twice. -/
structure Spells (text : String) (units : List Component) : Prop where
  distinct : (units.map (·.name)).Nodup
  lines : ∃ first records header,
    (text.toList.splitOn '\n').filter (fun line => !Text.allBlank line) = first :: records ∧
    Json.read (String.ofList first) = .ok header ∧ Announces header (units.map (·.name)) ∧
    List.Forall₂ SpellsRecord records units

theorem readLine_eq_ok_iff (line : List Char) (v : Json) :
    readLine line = .ok v ↔ Json.read (String.ofList line) = .ok v := by
  unfold readLine
  cases Json.read (String.ofList line) <;> simp

def nameOf? (v : Json) : Option String :=
  match v with
  | .str "" => none
  | .str s => some s
  | _ => none

theorem nameOf?_eq_some_iff (v : Json) (s : String) : nameOf? v = some s ↔ v = .str s ∧ s ≠ "" := by
  unfold nameOf?
  split
  case h_1 =>
    refine ⟨nofun, ?_⟩
    rintro ⟨heq, hne⟩
    cases heq
    exact absurd rfl hne
  case h_2 t ht =>
    constructor
    · intro heq
      cases heq
      exact ⟨rfl, ht⟩
    · rintro ⟨heq, -⟩
      cases heq
      rfl
  case h_3 hother =>
    refine ⟨nofun, ?_⟩
    rintro ⟨heq, -⟩
    exact absurd heq (hother s)

theorem unitNames?_eq_some_iff (v : Json) (names : List String) :
    unitNames? v = some names ↔ v = .arr (names.map .str) ∧ "" ∉ names := by
  cases v with
  | arr items =>
    change items.mapM nameOf? = some names ↔ _
    rw [Json.arr.injEq]
    induction items generalizing names with
    | nil => cases names <;> simp
    | cons v items ih =>
      cases names with
      | nil => simp [List.mapM_cons, Option.bind_eq_some_iff]
      | cons n names =>
        have hhead := nameOf?_eq_some_iff v n
        have htail := ih names
        rw [List.mapM_cons, List.map_cons, List.cons.injEq, List.mem_cons, not_or]
        simp only [Option.bind_eq_bind, Option.bind_eq_some_iff, Option.pure_def, Option.some.injEq,
          List.cons.injEq]
        constructor
        · rintro ⟨a, ha, as, has, rfl, rfl⟩
          obtain ⟨hv, hne⟩ := hhead.mp ha
          obtain ⟨hitems, hnot⟩ := htail.mp has
          exact ⟨⟨hv, hitems⟩, Ne.symm hne, hnot⟩
        · rintro ⟨⟨hv, hitems⟩, hne, hnot⟩
          exact ⟨n, hhead.mpr ⟨hv, Ne.symm hne⟩, names, htail.mpr ⟨hitems, hnot⟩, rfl, rfl⟩
  | _ => simp [unitNames?]

theorem checkVersion_eq_ok_iff (v : Json) (n : Int) :
    checkVersion v = .ok n ↔ v = .int n ∧ 1 ≤ n := by
  unfold checkVersion
  split
  case h_1 m =>
    by_cases hm : 1 ≤ m
    · rw [if_pos hm, Except.ok.injEq, Json.int.injEq]
      constructor
      · rintro rfl
        exact ⟨rfl, hm⟩
      · exact And.left
    · rw [if_neg hm]
      refine ⟨nofun, ?_⟩
      rintro ⟨heq, hn⟩
      cases heq
      exact absurd hn hm
  case h_2 hother =>
    refine ⟨nofun, ?_⟩
    rintro ⟨heq, -⟩
    exact absurd heq (hother n)

/-- An absent field counts as null, which no field of a header may be. -/
theorem field_eq_iff (fields : List (String × Json)) (key : String) (v : Json) (hv : v ≠ .null) :
    (Json.getKey? fields key).getD .null = v ↔ Json.getKey? fields key = some v := by
  cases Json.getKey? fields key with
  | none => simp [Ne.symm hv]
  | some w => simp

theorem headerOfFields_eq_ok_iff (fields : List (String × Json)) (names : List String) :
    (∃ version, Header.ofFields fields = .ok ⟨version, names⟩) ↔
      Announces (.obj fields) names ∧ "" ∉ names := by
  unfold Header.ofFields Announces
  dsimp only
  constructor
  · rintro ⟨version, h⟩
    split at h
    case isTrue => cases h
    case isFalse hformat =>
      rw [not_not] at hformat
      split at h
      case h_1 => cases h
      case h_2 n hversion =>
        split at h
        case h_2 => cases h
        case h_1 us hunits =>
          cases h
          obtain ⟨hint, hpos⟩ := (checkVersion_eq_ok_iff _ _).mp hversion
          obtain ⟨hlist, hnot⟩ := (unitNames?_eq_some_iff _ _).mp hunits
          exact ⟨⟨fields, version, rfl, (field_eq_iff _ _ _ (by simp)).mp hformat,
            (field_eq_iff _ _ _ (by simp)).mp hint, hpos,
            (field_eq_iff _ _ _ (by simp)).mp hlist⟩, hnot⟩
  · rintro ⟨⟨_, version, hfields, hformat, hint, hpos, hlist⟩, hnot⟩
    cases hfields
    have hunits := (unitNames?_eq_some_iff (.arr (names.map .str)) names).mpr ⟨rfl, hnot⟩
    have hversion := (checkVersion_eq_ok_iff (.int version) version).mpr ⟨rfl, hpos⟩
    refine ⟨version, ?_⟩
    simp [hformat, hint, hlist, hversion, hunits, formatName]

theorem headerRead_eq_ok_iff (line : List Char) (names : List String) :
    (∃ version, Header.read line = .ok ⟨version, names⟩) ↔
      ∃ v, Json.read (String.ofList line) = .ok v ∧ Announces v names ∧ "" ∉ names := by
  unfold Header.read
  constructor
  · rintro ⟨version, h⟩
    split at h
    case h_1 => cases h
    case h_2 fields hv =>
      exact ⟨.obj fields, (readLine_eq_ok_iff _ _).mp hv,
        (headerOfFields_eq_ok_iff fields names).mp ⟨version, h⟩⟩
    case h_3 => cases h
  · rintro ⟨v, hv, ha, hnot⟩
    rw [(readLine_eq_ok_iff _ _).mpr hv]
    obtain ⟨fields, version, rfl, hrest⟩ := ha
    exact (headerOfFields_eq_ok_iff fields names).mpr ⟨⟨fields, version, rfl, hrest⟩, hnot⟩

theorem readComponent_eq_ok_iff (line : List Char) (u : Component) :
    readComponent line = .ok u ↔ SpellsRecord line u := by
  unfold readComponent SpellsRecord
  constructor
  · intro h
    split at h
    case h_1 => cases h
    case h_2 v hv =>
      have hread := (readLine_eq_ok_iff line v).mp hv
      exact ⟨v, hread, (Component.ofJson_eq_ok_iff v u (Json.keys_of_read _ v hread)).mp h⟩
  · rintro ⟨v, hread, hu⟩
    rw [(readLine_eq_ok_iff line v).mpr hread]
    exact (Component.ofJson_eq_ok_iff v u (Json.keys_of_read _ v hread)).mpr hu

theorem spellsRecord_unique : Relator.RightUnique SpellsRecord := by
  intro line u v hu hv
  have hread := (readComponent_eq_ok_iff line u).mpr hu
  rw [(readComponent_eq_ok_iff line v).mpr hv] at hread
  cases hread
  rfl

theorem addRecord_eq_ok_iff (r s : Registry) (expected : String) (line : List Char)
    (hopen : r.frozen = false) : addRecord r expected line = .ok s ↔
      ∃ u, SpellsRecord line u ∧ u.name = expected ∧ expected ∉ r.names ∧
        s = { r with units := r.units ++ [u.close] } := by
  unfold addRecord
  constructor
  · intro h
    split at h
    case h_1 => cases h
    case h_2 u hu =>
      split at h
      case isTrue => cases h
      case isFalse hname =>
        rw [not_not] at hname
        split at h
        case h_2 => cases h
        case h_1 s' hs =>
          cases h
          obtain ⟨-, -, hnew, rfl⟩ := (Registry.add_eq_ok_iff _ _ _).mp hs
          exact ⟨u, (readComponent_eq_ok_iff line u).mp hu, hname, hname ▸ hnew, rfl⟩
  · rintro ⟨u, hu, rfl, hnew, rfl⟩
    have hsegment : Name.isSegment u.name = true := by
      obtain ⟨v, -, hv⟩ := hu
      exact hv.segment
    have hadd := (Registry.add_eq_ok_iff r _ u).mpr ⟨hsegment, hopen, hnew, rfl⟩
    rw [(readComponent_eq_ok_iff line u).mpr hu]
    simp [hadd]

/-- Records are added one by one to the units that are there. -/
theorem addRecords_eq_none_iff (expected : List String) (lines : List (List Char))
    (hlength : lines.length = expected.length) (r s : Registry) (hopen : r.frozen = false)
    (number : Nat) : addRecords r expected lines number = (s, none) ↔
      ∃ us, List.Forall₂ SpellsRecord lines us ∧ us.map (·.name) = expected ∧ expected.Nodup ∧
        (∀ n ∈ expected, n ∉ r.names) ∧ s = { r with units := r.units ++ us.map Component.close } := by
  induction expected generalizing lines r number with
  | nil =>
    rw [List.length_nil, List.length_eq_zero_iff] at hlength
    subst hlength
    constructor
    · intro h
      cases h
      exact ⟨[], .nil, rfl, List.nodup_nil, nofun, by simp⟩
    · rintro ⟨us, hus, -, -, -, rfl⟩
      cases hus
      simp [addRecords]
  | cons name names ih =>
    cases lines with
    | nil => cases hlength
    | cons line lines =>
      -- the other records are added beside the first one
      have hnews : ∀ u : Component, u.name = name →
          (((name :: names).Nodup ∧ ∀ n ∈ name :: names, n ∉ r.names) ↔ name ∉ r.names ∧
            names.Nodup ∧ ∀ n ∈ names, n ∉ { r with units := r.units ++ [u.close] }.names) := by
        intro u hu
        have hnew := Named.new_cons_iff id name names r.names
          { r with units := r.units ++ [u.close] }.names fun n => ?_
        · simpa only [List.map_id, id] using hnew
        · simp [Registry.names, Component.close, hu]
      rw [addRecords]
      constructor
      · intro h
        split at h
        case h_2 => cases h
        case h_1 r' hr' =>
          obtain ⟨u, hu, hname, hnew, rfl⟩ := (addRecord_eq_ok_iff r r' name line hopen).mp hr'
          obtain ⟨us, hus, hnames, hrest, hfree, rfl⟩ :=
            (ih lines (Nat.succ.inj hlength) { r with units := r.units ++ [u.close] } hopen _).mp h
          obtain ⟨hnodup, hfree⟩ := (hnews u hname).mpr ⟨hnew, hrest, hfree⟩
          exact ⟨u :: us, .cons hu hus, by rw [List.map_cons, hname, hnames], hnodup, hfree, by simp⟩
      · rintro ⟨us, hus, hnames, hnodup, hfree, rfl⟩
        cases hus with
        | cons hu hus =>
          rename_i u us
          rw [List.map_cons, List.cons.injEq] at hnames
          obtain ⟨hnew, hrest, hfree⟩ := (hnews u hnames.1).mp ⟨hnodup, hfree⟩
          rw [(addRecord_eq_ok_iff r _ name line hopen).mpr ⟨u, hu, hnames.1, hnew, rfl⟩]
          exact (ih lines (Nat.succ.inj hlength) { r with units := r.units ++ [u.close] } hopen
            _).mpr ⟨us, hus, hnames.2, hrest, hfree, by simp⟩

theorem decode_of_contents (text : String) (source : Option String) (r : Registry) :
    decode text source = .ok r ↔
      (contents text.toList source).fault = none ∧
        r = (contents text.toList source).registry.freeze := by
  unfold decode
  dsimp only
  split
  case h_1 hnone => simp [hnone, eq_comm]
  case h_2 m hm => simp [hm]

theorem decode_eq_error_iff (text : String) (source : Option String) (m : Malformed) :
    decode text source = .error m ↔ (contents text.toList source).fault = some m := by
  unfold decode
  dsimp only
  split
  case h_1 hnone => simp [hnone]
  case h_2 m' hm' => simp [hm']

/-- Nothing is missing if the header can be read, announces as many records as there are, and all of
them can be added. -/
theorem contents_fault_eq_none_iff (text : List Char) (source : Option String) (r : Registry) :
    (contents text source).fault = none ∧ (contents text source).registry = r ↔
      ∃ first records h, significantLines text = first :: records ∧ Header.read first = .ok h ∧
        records.length = h.units.length ∧ addRecords {} h.units records 2 = (r, none) := by
  unfold contents
  constructor
  · rintro ⟨hfault, rfl⟩
    split at hfault
    case h_1 => cases hfault
    case h_2 first records hlines =>
      split at hfault
      case h_1 => cases hfault
      case h_2 h hheader =>
        split at hfault
        case isTrue => cases hfault
        case isFalse hlength =>
          rw [not_not] at hlength
          refine ⟨first, records, h, hlines, hheader, hlength, ?_⟩
          simp only [hlength, ne_eq, not_true_eq_false, if_false]
          exact Prod.ext rfl (Option.map_eq_none_iff.mp hfault)
  · rintro ⟨first, records, h, hlines, hheader, hlength, hadd⟩
    simp [hlines, hheader, hlength, hadd]

theorem significantLines_eq (text : List Char) :
    significantLines text = (text.splitOn '\n').filter fun line => !Text.allBlank line := by
  rw [significantLines, Text.pieces_eq_splitOn]

theorem built_of_record (line : List Char) (u : Component) (h : SpellsRecord line u) :
    u.Built := by
  obtain ⟨v, hread, hsegment, fields, tree, catalog, rfl, -, -, htree, hcatalog, hspells⟩ := h
  have hkeys := catalog_distinctKeys fields catalog (Json.keys_of_read _ _ hread) hcatalog
  exact ⟨hsegment, .ofJson tree _ ((Tree.ofJson_eq_ok_iff _ _).mpr htree),
    .ofJson catalog _ hkeys ((Catalog.ofJson_eq_ok_iff _ _ hkeys).mpr hspells)⟩

theorem segment_ne_empty (line : List Char) (u : Component) (h : SpellsRecord line u) :
    u.name ≠ "" := by
  obtain ⟨v, -, hv⟩ := h
  intro hempty
  have hsegment := hv.segment
  rw [hempty] at hsegment
  exact absurd hsegment (by decide)

theorem decode_eq_ok_iff (text : String) (source : Option String) (r : Registry) :
    decode text source = .ok r ↔ ∃ us, Spells text us ∧ r = ⟨us.map Component.close, true⟩ := by
  rw [decode_of_contents]
  constructor
  · rintro ⟨hfault, rfl⟩
    obtain ⟨first, records, ⟨version, names⟩, hlines, hheader, hlength, hadd⟩ :=
      (contents_fault_eq_none_iff text.toList source _).mp ⟨hfault, rfl⟩
    obtain ⟨header, hread, hannounces, -⟩ := (headerRead_eq_ok_iff first names).mp ⟨version, hheader⟩
    obtain ⟨us, hus, rfl, hnodup, -, hr⟩ :=
      (addRecords_eq_none_iff names records hlength {} _ rfl 2).mp hadd
    rw [significantLines_eq] at hlines
    refine ⟨us, ⟨hnodup, first, records, header, hlines, hread, hannounces, hus⟩, ?_⟩
    rw [hr]
    rfl
  · rintro ⟨us, ⟨hnodup, first, records, header, hlines, hread, hannounces, hus⟩, rfl⟩
    -- the header does not list the empty name, which no record can have
    have hnamed : "" ∉ us.map (·.name) := by
      rw [List.mem_map]
      rintro ⟨u, hu, hempty⟩
      obtain ⟨line, -, hline⟩ := Result.exists_left_of_mem hus u hu
      exact segment_ne_empty line u hline hempty
    obtain ⟨version, hheader⟩ :=
      (headerRead_eq_ok_iff first _).mpr ⟨header, hread, hannounces, hnamed⟩
    have hlength : records.length = (us.map (·.name)).length := by
      rw [List.length_map]
      exact hus.length_eq
    have hadd := (addRecords_eq_none_iff _ records hlength {} _ rfl 2).mpr
      ⟨us, hus, rfl, hnodup, by simp [Registry.names], rfl⟩
    rw [← significantLines_eq] at hlines
    obtain ⟨hfault, hregistry⟩ := (contents_fault_eq_none_iff text.toList source _).mpr
      ⟨first, records, ⟨version, _⟩, hlines, hheader, hlength, hadd⟩
    refine ⟨hfault, ?_⟩
    rw [hregistry]
    rfl

/-- Two lines that mean the same value, if they mean any. -/
def ReadAlike (line other : List Char) : Prop :=
  ∀ v, Json.read (String.ofList line) = .ok v ↔ Json.read (String.ofList other) = .ok v

theorem spellsRecord_alike (line other : List Char) (h : ReadAlike line other) (u : Component) :
    SpellsRecord line u ↔ SpellsRecord other u :=
  exists_congr fun v => and_congr_left fun _ => h v

theorem spellsRecords_alike (lines others : List (List Char))
    (h : List.Forall₂ ReadAlike lines others) (us : List Component) :
    List.Forall₂ SpellsRecord lines us ↔ List.Forall₂ SpellsRecord others us := by
  induction h generalizing us with
  | nil => exact Iff.rfl
  | cons halike _ ih =>
    cases us with
    | nil => exact ⟨nofun, nofun⟩
    | cons u us =>
      rw [List.forall₂_cons, List.forall₂_cons, ih us, spellsRecord_alike _ _ halike u]

end Artifact

end DocNavigation
