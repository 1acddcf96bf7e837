import DocNavigation.Proofs.Artifact.RoundTrip
import DocNavigation.Proofs.Json.Composed

/-!
Artifacts of newer writers. A newer writer may add entries with keys of its own to the header, to
the records and to every node of a tree, put the entries of these objects in another order, raise
the version, write more behind the two texts of a row, and leave blank lines. What it writes is read
as the registry that it was written for.
-/

namespace DocNavigation

namespace Json

/-- The text of an object with the entries that are known, each once, and others with other keys, in
any order. -/
def Extends (known : List (String × List Char)) (t : List Char) : Prop :=
  ∃ entries added, t = objectText entries ∧
    entries.Perm (known.map (fun e => (text (.str e.1), e.2)) ++ added) ∧
    ∀ e ∈ added, ∃ key v, MeansField e (key, v) ∧ key ∉ known.map (·.1)

theorem extends_text (fields : List (String × Json)) :
    Extends (fields.map fun f => (f.1, text f.2)) (text (.obj fields)) := by
  refine ⟨_, [], text_object fields, ?_, nofun⟩
  rw [List.map_map, List.append_nil]
  exact .refl _

/-- The known entries are found by their keys whatever stands beside them. -/
theorem Extends.means (known : List (String × List Char)) (t : List Char) (h : Extends known t)
    (hkeys : (known.map (·.1)).Nodup) (hknown : ∀ e ∈ known, ∃ v, Means e.2 v) :
    ∃ fields, Means t (.obj fields) ∧
      ∀ e ∈ known, ∀ v, Means e.2 v → getKey? fields e.1 = some v := by
  obtain ⟨entries, added, rfl, hperm, hadded⟩ := h
  have hall : ∀ e ∈ entries, ∃ f, MeansField e f := by
    intro e he
    rcases List.mem_append.mp (hperm.mem_iff.mp he) with he | he
    · obtain ⟨k, hk, rfl⟩ := List.mem_map.mp he
      obtain ⟨v, hv⟩ := hknown k hk
      exact ⟨(k.1, v), meansField_text k.1 k.2 v hv⟩
    · obtain ⟨key, v, hfield, -⟩ := hadded e he
      exact ⟨(key, v), hfield⟩
  obtain ⟨fields, hfields⟩ := Result.exists_forall₂ hall
  refine ⟨putAll [] fields, means_object entries fields hfields, ?_⟩
  intro e he v hv
  have hfield := meansField_text e.1 e.2 v hv
  refine getKey?_putAll [] fields e.1 v (.inl ?_) ?_
  · have hentry : (text (.str e.1), e.2) ∈ entries :=
      hperm.mem_iff.mpr (List.mem_append_left _ (List.mem_map_of_mem he))
    obtain ⟨f, hf, hmeans⟩ := Result.exists_right_of_mem hfields _ hentry
    rw [hfield.unique _ _ f hmeans]
    exact hf
  · intro f hf hname
    obtain ⟨d, hd, hmeans⟩ := Result.exists_left_of_mem hfields f hf
    rcases List.mem_append.mp (hperm.mem_iff.mp hd) with hd | hd
    · obtain ⟨k, hk, rfl⟩ := List.mem_map.mp hd
      obtain ⟨w, hw⟩ := hknown k hk
      obtain rfl := (meansField_text k.1 k.2 w hw).unique _ _ f hmeans
      -- no two known entries have one key
      obtain rfl := List.inj_on_of_nodup_map hkeys hk he hname
      exact hw.unique _ _ _ hv
    · obtain ⟨key, w, hother, hnew⟩ := hadded d hd
      obtain rfl := hother.unique _ _ f hmeans
      obtain rfl : key = e.1 := hname
      exact absurd (List.mem_map_of_mem he) hnew

end Json

namespace Tree

mutual

/-- A text for the tree, as a newer writer may spell it. -/
def Text : Tree → List Char → Prop
  | .node n _ ds fs, t => ∃ dirs, Texts ds dirs ∧
    Json.Extends [("name", Json.text (.str n)), ("dirs", Json.listText dirs),
      ("files", Json.text (.strings fs))] t

def Texts : List Tree → List (List Char) → Prop
  | [], ts => ts = []
  | d :: ds, ts => ∃ t more, ts = t :: more ∧ Text d t ∧ Texts ds more

end

mutual

theorem Text.spells : (t : Tree) → (x : List Char) → Text t x → t.WellFormed → (root : Bool) →
    (root = false → Name.isSegment t.name = true) →
    ∃ v, Json.Means x v ∧ Spells root v t.copy
  | .node n s ds fs, x, ⟨dirs, hdirs, hextends⟩, hwell, root, hroot => by
    obtain ⟨vs, hvs, hlength, hall⟩ := Texts.spells ds dirs hdirs hwell.2 hwell.1.dirNames
    have hname := Json.means_str n
    have hlist := Json.means_list dirs vs hvs
    have hfiles := Json.means_text (.strings fs) (Json.strings_restorable fs)
    obtain ⟨fields, hmeans, hfields⟩ := hextends.means _ _ (by simp) (by
      simp only [List.forall_mem_cons]
      exact ⟨⟨_, hname⟩, ⟨_, hlist⟩, ⟨_, hfiles⟩, nofun⟩)
    simp only [List.forall_mem_cons] at hfields
    obtain ⟨hfirst, hsecond, hthird, -⟩ := hfields
    refine ⟨.obj fields, hmeans, .node root fields n vs fs (withSealAll false ds) ?_ ?_ ?_ hroot
      hlength hall hwell.1.fileNames ?_⟩
    · rw [hfirst _ hname, Option.getD_some]
    · rw [hsecond _ hlist, Option.getD_some]
    · rw [hthird _ hfiles, Option.getD_some, Json.strings]
    · rw [map_name_withSealAll]
      exact hwell.1.distinct

theorem Texts.spells : (ds : List Tree) → (ts : List (List Char)) → Texts ds ts →
    WellFormedAll ds → (∀ d ∈ ds, Name.isSegment d.name = true) →
    ∃ vs, List.Forall₂ Json.Means ts vs ∧ vs.length = (withSealAll false ds).length ∧
      ∀ p ∈ vs.zip (withSealAll false ds), Spells false p.1 p.2
  | [], ts, hts, _, _ => by
    obtain rfl : ts = [] := hts
    exact ⟨[], .nil, rfl, nofun⟩
  | d :: ds, ts, ⟨t, more, hts, ht, hmore⟩, hwell, hnames => by
    rw [List.forall_mem_cons] at hnames
    obtain ⟨v, hv, hspells⟩ := Text.spells d t ht hwell.1 false fun _ => hnames.1
    obtain ⟨vs, hvs, hlength, hall⟩ := Texts.spells ds more hmore hwell.2 hnames.2
    subst hts
    refine ⟨v :: vs, .cons hv hvs, congrArg (· + 1) hlength, ?_⟩
    rw [withSealAll, List.zip_cons_cons, List.forall_mem_cons]
    exact ⟨hspells, hall⟩

end

mutual

/-- The text that is written is one of them. -/
theorem text_toJson : (t : Tree) → Text t (Json.text t.toJson)
  | .node n s ds fs => by
    refine ⟨(toJsonAll ds).map Json.text, texts_toJson ds, ?_⟩
    rw [toJson, ← Json.text_list]
    exact Json.extends_text
      [("name", .str n), ("dirs", .arr (toJsonAll ds)), ("files", .strings fs)]

theorem texts_toJson : (ds : List Tree) → Texts ds ((toJsonAll ds).map Json.text)
  | [] => rfl
  | d :: ds =>
    ⟨Json.text d.toJson, (toJsonAll ds).map Json.text, rfl, text_toJson d, texts_toJson ds⟩

end

end Tree

namespace Catalog

/-- A row with any values behind its two texts. -/
def RowText (i : CatalogItem) (t : List Char) : Prop :=
  ∃ added, (∀ x ∈ added, ∃ v, Json.Means x v) ∧
    t = Json.listText (Json.text (.str i.name) :: Json.text (.str i.summary) :: added)

def GroupText (g : String × List CatalogItem) (e : List Char × List Char) : Prop :=
  ∃ rows, e = (Json.text (.str g.1), Json.listText rows) ∧ List.Forall₂ RowText g.2 rows

def Text (c : Catalog) (t : List Char) : Prop :=
  ∃ entries, t = Json.objectText entries ∧ List.Forall₂ GroupText c.groups entries

theorem RowText.spells (i : CatalogItem) (t : List Char) (h : RowText i t) :
    ∃ v, Json.Means t v ∧ SpellsItem v i := by
  obtain ⟨added, hadded, rfl⟩ := h
  obtain ⟨more, hmore⟩ := Result.exists_forall₂ hadded
  exact ⟨_, Json.means_list _ _ (.cons (Json.means_str _) (.cons (Json.means_str _) hmore)), more,
    rfl⟩

theorem rows_spell (is : List CatalogItem) (rows : List (List Char))
    (h : List.Forall₂ RowText is rows) :
    ∃ vs, List.Forall₂ Json.Means rows vs ∧ List.Forall₂ SpellsItem vs is := by
  induction h with
  | nil => exact ⟨[], .nil, .nil⟩
  | @cons i row is rows hrow _ ih =>
    obtain ⟨v, hv, hspells⟩ := RowText.spells i row hrow
    obtain ⟨vs, hvs, hall⟩ := ih
    exact ⟨v :: vs, .cons hv hvs, .cons hspells hall⟩

theorem groups_spell (gs : List (String × List CatalogItem))
    (entries : List (List Char × List Char)) (h : List.Forall₂ GroupText gs entries)
    (hgs : ∀ g ∈ gs, OrderlyGroup g) :
    ∃ fields, List.Forall₂ Json.MeansField entries fields ∧ List.Forall₂ SpellsGroup fields gs := by
  induction h with
  | nil => exact ⟨[], .nil, .nil⟩
  | @cons g e gs entries hentry _ ih =>
    rw [List.forall_mem_cons] at hgs
    obtain ⟨rows, rfl, hrows⟩ := hentry
    obtain ⟨vs, hvs, hspells⟩ := rows_spell g.2 rows hrows
    obtain ⟨fields, hfields, hall⟩ := ih hgs.2
    refine ⟨(g.1, .arr vs) :: fields,
      .cons (Json.meansField_text g.1 _ _ (Json.means_list rows vs hvs)) hfields, .cons ?_ hall⟩
    exact ⟨rfl, ⟨vs, rfl, hspells⟩, fun _ => hgs.1.category, hgs.1.itemNames, hgs.1.distinct⟩

theorem Text.spells (c : Catalog) (t : List Char) (h : Text c t) (hc : c.WellFormed) :
    ∃ v, Json.Means t v ∧ Spells v c.copy := by
  obtain ⟨entries, rfl, hentries⟩ := h
  obtain ⟨fields, hfields, hspells⟩ := groups_spell c.groups entries hentries hc.groups
  have hput : Json.putAll [] fields = fields := by
    apply Json.putAll_of_nodup
    rw [List.nil_append, ← categories_of_spells fields c.groups hspells]
    exact hc.distinct
  refine ⟨.obj fields, hput ▸ Json.means_object entries fields hfields, fields, c.groups, rfl,
    hspells, ?_⟩
  rw [filled_groups c hc]
  rfl

theorem text_toJson (c : Catalog) : Text c (Json.text c.toJson) := by
  refine ⟨_, Json.text_object _, ?_⟩
  rw [toFields, List.map_map, List.forall₂_map_right_iff, List.forall₂_same]
  intro g _
  refine ⟨g.2.map fun i => Json.text (itemRow i), ?_, ?_⟩
  · refine Prod.ext rfl ?_
    exact (Json.text_list _).trans (congrArg Json.listText List.map_map)
  · rw [List.forall₂_map_right_iff, List.forall₂_same]
    intro i _
    exact ⟨[], List.forall_mem_nil _, Json.text_list _⟩

end Catalog

namespace Component

def Text (u : Component) (t : List Char) : Prop :=
  ∃ tree catalog, Tree.Text u.tree tree ∧ Catalog.Text u.catalog catalog ∧
    Json.Extends [("name", Json.text (.str u.name)), ("tree", tree), ("catalog", catalog)] t

theorem Text.spells (u : Component) (t : List Char) (h : Text u t) (hu : u.WellFormed) :
    ∃ v, Json.Means t v ∧ Spells v u.copy := by
  obtain ⟨tree, catalog, htree, hcatalog, hextends⟩ := h
  have hname := Json.means_str u.name
  obtain ⟨w, hw, htree⟩ := Tree.Text.spells u.tree tree htree hu.tree true nofun
  obtain ⟨c, hc, hcatalog⟩ := Catalog.Text.spells u.catalog catalog hcatalog hu.catalog
  obtain ⟨fields, hmeans, hfields⟩ := hextends.means _ _ (by simp) (by
    simp only [List.forall_mem_cons]
    exact ⟨⟨_, hname⟩, ⟨_, hw⟩, ⟨_, hc⟩, nofun⟩)
  simp only [List.forall_mem_cons] at hfields
  obtain ⟨hfirst, hsecond, hthird, -⟩ := hfields
  exact ⟨.obj fields, hmeans, hu.name, fields, w, c, rfl, hfirst _ hname, hsecond _ hw, htree,
    hthird _ hc, hcatalog⟩

theorem text_toJson (u : Component) : Text u (Json.text u.toJson) := by
  refine ⟨_, _, Tree.text_toJson u.tree, Catalog.text_toJson u.catalog, ?_⟩
  exact Json.extends_text
    [("name", .str u.name), ("tree", u.tree.toJson), ("catalog", u.catalog.toJson)]

end Component

namespace Artifact

/-- A header of some version whose number is short enough to be read. -/
def HeaderText (names : List String) (t : List Char) : Prop :=
  ∃ version : Nat, 1 ≤ version ∧ (Nat.toDigits 10 version).length ≤ Number.maxDigits ∧
    Json.Extends [("format", Json.text (.str formatName)), ("version", Json.text (.int version)),
      ("units", Json.text (.strings names))] t

theorem HeaderText.announces (names : List String) (t : List Char) (h : HeaderText names t) :
    ∃ v, Json.Means t v ∧ Announces v names := by
  obtain ⟨version, hversion, hdigits, hextends⟩ := h
  have hformat := Json.means_str formatName
  have hint := Json.means_text (.int version) hdigits
  have hunits := Json.means_text (.strings names) (Json.strings_restorable names)
  obtain ⟨fields, hmeans, hfields⟩ := hextends.means _ _ (by simp) (by
    simp only [List.forall_mem_cons]
    exact ⟨⟨_, hformat⟩, ⟨_, hint⟩, ⟨_, hunits⟩, nofun⟩)
  simp only [List.forall_mem_cons] at hfields
  obtain ⟨hfirst, hsecond, hthird, -⟩ := hfields
  exact ⟨.obj fields, hmeans, fields, version, rfl, hfirst _ hformat, hsecond _ hint,
    Int.ofNat_le.mpr hversion, hthird _ hunits⟩

theorem headerText_header (r : Registry) : HeaderText r.names (Json.text (header r)) := by
  refine ⟨1, Nat.le_refl 1, by decide, ?_⟩
  exact Json.extends_text
    [("format", .str formatName), ("version", .int 1), ("units", .strings r.names)]

/-- The lines that are not blank are a header with the names and records of the units. -/
def Newer (r : Registry) (text : String) : Prop :=
  ∃ first records, significantLines text.toList = first :: records ∧ HeaderText r.names first ∧
    List.Forall₂ Component.Text r.units records

theorem newer_encode (r : Registry) (hr : ∀ u ∈ r.units, u.WellFormed) : Newer r (encode r) := by
  refine ⟨Json.text (header r), (r.units.map Component.toJson).map Json.text, ?_,
    headerText_header r, ?_⟩
  · rw [significantLines_eq, lines_encode r hr, values, List.map_cons]
  · rw [List.map_map, List.forall₂_map_right_iff, List.forall₂_same]
    exact fun u _ => Component.text_toJson u

theorem records_spell (us : List Component) (records : List (List Char))
    (h : List.Forall₂ Component.Text us records) (hus : ∀ u ∈ us, u.WellFormed) :
    List.Forall₂ SpellsRecord records (us.map Component.copy) := by
  induction h with
  | nil => exact .nil
  | @cons u record us records hrecord _ ih =>
    rw [List.forall_mem_cons] at hus
    obtain ⟨v, hmeans, hspells⟩ := Component.Text.spells u record hrecord hus.1
    refine .cons ⟨v, ?_, hspells⟩ (ih hus.2)
    rw [Json.read_eq_ok_iff, String.toList_ofList]
    exact hmeans

theorem Newer.spells (r : Registry) (text : String) (h : Newer r text) (hnames : r.names.Nodup)
    (hr : ∀ u ∈ r.units, u.WellFormed) : Spells text (r.units.map Component.copy) := by
  obtain ⟨first, records, hlines, hfirst, hrecords⟩ := h
  obtain ⟨v, hmeans, hannounces⟩ := hfirst.announces _ _
  have hsame : (r.units.map Component.copy).map (·.name) = r.names := by
    rw [List.map_map]
    rfl
  rw [significantLines_eq] at hlines
  refine ⟨by rwa [hsame], first, records, v, hlines, ?_, by rwa [hsame],
    records_spell r.units records hrecords hr⟩
  rw [Json.read_eq_ok_iff, String.toList_ofList]
  exact hmeans

/-- What newer writers add is passed over. -/
theorem newer_readable (r : Registry) (text : String) (source : Option String) (hr : r.Reachable)
    (h : Newer r text) : ∃ s, decode text source = .ok s ∧ s.frozen = true ∧ s.names = r.names ∧
      List.Forall₂ (fun u v => Component.same u v = true) s.units r.units ∧
      encode s = encode r := by
  obtain ⟨hnames, hbuilt⟩ := Registry.Reachable.sound r hr
  have hwell := fun u hu => Component.Built.wellFormed u (hbuilt u hu)
  refine ⟨_, decode_copies r text source (h.spells r text hnames hwell), rfl,
    Component.map_name_close r.units, ?_, encode_close r true⟩
  rw [List.forall₂_map_left_iff, List.forall₂_same]
  intro u _
  exact Component.close_same u

/-- A unit with a file in a folder and one item. -/
def plainUnit : Component where
  name := "u"
  tree := .node "u" true [.node "d" true [] ["f"]] []
  catalog := ⟨[("k", [⟨"n", "s"⟩])], true⟩

theorem plainUnit_reachable : Registry.Reachable ⟨[plainUnit], false⟩ := by
  have htree : Tree.Built (.node "u" false [.node "d" false [] ["f"]] []) :=
    .edit (Tree.empty "u") _ _ [] (.empty _) rfl
      (.insertFile _ _ (.arr [.str "d", .str "f"]) _ rfl rfl)
  have hcatalog : Catalog.Built ⟨[("k", [⟨"n", "s"⟩])], false⟩ :=
    .addValues {} _ (.str "k") (.str "n") (.str "s") _ .empty rfl
  exact .register {} _ (.str "u") _ _ _ .empty htree hcatalog rfl

/-- A value of a newer writer that has an entry of a header in it. -/
def newerValue : List Char :=
  Json.objectText [("\"units\"".toList, "[]".toList)]

theorem newerValue_means : Json.Means newerValue (.obj [("units", .arr [])]) :=
  Json.means_object _ [("units", .arr [])] (.cons ⟨rfl, rfl⟩ .nil)

def newerFolder : List (List Char × List Char) :=
  [("\"files\"".toList, "[\"f\"]".toList), ("\"size\"".toList, "4.5e1".toList),
    ("\"name\"".toList, "\"d\"".toList), ("\"tree\"".toList, " null".toList),
    ("\"dirs\"".toList, "[]".toList)]

theorem newerFolder_text :
    Tree.Text (.node "d" true [] ["f"]) (Json.objectText newerFolder) := by
  refine ⟨[], rfl, newerFolder, [newerFolder[1], newerFolder[3]], rfl, by decide, ?_⟩
  simp only [List.forall_mem_cons]
  exact ⟨⟨"size", _, ⟨rfl, rfl⟩, by simp⟩, ⟨"tree", _, ⟨rfl, rfl⟩, by simp⟩, nofun⟩

def newerTree : List (List Char × List Char) :=
  [("\"files\"".toList, "[]".toList),
    ("\"dirs\"".toList, Json.listText [Json.objectText newerFolder]),
    ("\"name\"".toList, "\"u\"".toList)]

theorem newerTree_text : Tree.Text plainUnit.tree (Json.objectText newerTree) :=
  ⟨[Json.objectText newerFolder], ⟨_, [], rfl, newerFolder_text, rfl⟩, newerTree, [], rfl,
    by decide +kernel, nofun⟩

theorem newerRow_text : Catalog.RowText ⟨"n", "s"⟩ "[\"n\",\"s\",[],true]".toList := by
  refine ⟨["[]".toList, "true".toList], ?_, by decide⟩
  simp only [List.forall_mem_cons]
  exact ⟨⟨_, rfl⟩, ⟨_, rfl⟩, nofun⟩

def newerCatalog : List (List Char × List Char) :=
  [("\"k\"".toList, "[[\"n\",\"s\",[],true]]".toList)]

theorem newerCatalog_text : Catalog.Text plainUnit.catalog (Json.objectText newerCatalog) :=
  ⟨newerCatalog, rfl,
    .cons ⟨["[\"n\",\"s\",[],true]".toList], by decide, .cons newerRow_text .nil⟩ .nil⟩

def newerRecord : List (List Char × List Char) :=
  [("\"tree\"".toList, Json.objectText newerTree), ("\"by\"".toList, newerValue),
    ("\"catalog\"".toList, Json.objectText newerCatalog), ("\"name\"".toList, "\"u\"".toList)]

theorem newerRecord_text : Component.Text plainUnit (Json.objectText newerRecord) := by
  refine ⟨_, _, newerTree_text, newerCatalog_text, newerRecord, [newerRecord[1]], rfl,
    by decide +kernel, ?_⟩
  rw [List.forall_mem_singleton]
  exact ⟨"by", _, ⟨rfl, newerValue_means⟩, by simp⟩

def newerHeader : List (List Char × List Char) :=
  [("\"units\"".toList, "[\"u\"]".toList), ("\"name\"".toList, newerValue),
    ("\"version\"".toList, "12".toList), ("\"format\"".toList, "\"navindex\"".toList)]

theorem newerHeader_text : HeaderText ["u"] (Json.objectText newerHeader) := by
  refine ⟨12, by decide, by decide, newerHeader, [newerHeader[1]], rfl, by decide +kernel, ?_⟩
  rw [List.forall_mem_singleton]
  exact ⟨"name", _, ⟨rfl, newerValue_means⟩, by simp⟩

/-- Blank lines, a header of a later version and a record, with the entries in other orders. -/
def newerLines : List Char :=
  " \t\n".toList ++ Json.objectText newerHeader ++ "\n\n".toList ++ Json.objectText newerRecord

def newerText : String :=
  String.ofList newerLines

theorem newerText_newer : Newer ⟨[plainUnit], false⟩ newerText := by
  have hlines : significantLines newerLines =
      [Json.objectText newerHeader, Json.objectText newerRecord] := by decide +kernel
  exact ⟨_, _, (congrArg significantLines String.toList_ofList).trans hlines, newerHeader_text,
    .cons newerRecord_text .nil⟩

theorem newer_readable_newerText : Registry.Reachable ⟨[plainUnit], false⟩ ∧
    Newer ⟨[plainUnit], false⟩ newerText ∧ ∃ s, decode newerText none = .ok s ∧ s.frozen = true ∧
      s.names = ["u"] ∧ List.Forall₂ (fun u v => Component.same u v = true) s.units [plainUnit] ∧
      encode s = encode ⟨[plainUnit], false⟩ :=
  ⟨plainUnit_reachable, newerText_newer,
    newer_readable _ newerText none plainUnit_reachable newerText_newer⟩

/-- The header of no units, with an integer in front of its entries. -/
def headerWith (n : Nat) : List Char :=
  '\x7b' :: '"' :: 'x' :: '"' :: ':' ::
    (Json.text (.int n) ++ ',' :: (Json.text (header {})).tail)

section
variable (n : Nat)

theorem readDocument_headerWith (h : Number.maxDigits < (Nat.toDigits 10 n).length) :
    Json.readDocument (headerWith n) = .error (.hugeInteger (Nat.toDigits 10 n).length) := by
  set more := ',' :: (Json.text (header {})).tail
  have hends : Json.EndsNumeral more := Json.endsNumeral_cons _ _ (by decide)
  have hint : ∀ fuel, Json.readValue (fuel + 1) (Json.skipSpace (Json.text (.int n) ++ more)) =
      .error (.hugeInteger (Nat.toDigits 10 n).length) := by
    intro fuel
    have hread := Json.readValue_int fuel n more hends
    obtain ⟨c, cs, hc, hspace, -⟩ := Json.int_head n
    rw [hc, List.cons_append] at hread ⊢
    rw [Json.skipSpace_cons c _ hspace, hread]
    exact if_pos h
  have hkey : Json.readString ('x' :: '"' :: ':' :: (Json.text (.int n) ++ more)) =
      .ok ("x", ':' :: (Json.text (.int n) ++ more)) := rfl
  have hvalue : ∀ fuel, Json.readValue (fuel + 3) (headerWith n) =
      .error (.hugeInteger (Nat.toDigits 10 n).length) := by
    intro fuel
    have hopening : '"' ≠ '\x7d' := by decide
    rw [headerWith, Json.readValue_object, Json.bracketed, Json.skipSpace_cons '"' _ (by decide)]
    simp only [if_neg hopening]
    rw [Json.readFields_of_key (fuel + 1) _ _ _ "x" [] hkey rfl, Json.valueThen, hint]
  have hskip : Json.skipSpace (headerWith n) = headerWith n := rfl
  obtain ⟨fuel, hfuel⟩ : ∃ fuel, (headerWith n).length + 1 = fuel + 3 :=
    ⟨((headerWith n).drop 2).length, rfl⟩
  rw [Json.readDocument, if_neg (by simp [headerWith])]
  simp only [hskip, hfuel, hvalue]

/-- An integer that is too long to be converted is refused, also where nothing asks for it. -/
theorem decode_headerWith (h : Number.maxDigits < (Nat.toDigits 10 n).length)
    (source : Option String) : decode (String.ofList (headerWith n ++ ['\n'])) source =
      .error ⟨.syntaxError (.hugeInteger (Nat.toDigits 10 n).length), source, some 1⟩ := by
  have hint : Json.Printable (Json.text (.int n)) := by
    rw [Json.text, Json.write, Json.toList_int, if_neg (by omega)]
    exact Json.printable_digits _
  have hfeed : '\n' ∉ headerWith n := by
    have htail : '\n' ∉ (Json.text (header {})).tail := by decide
    simp [headerWith, Json.feed_not_mem_of_printable _ hint, htail]
  have hlines : significantLines (headerWith n ++ ['\n']) = [headerWith n] := by
    have hpieces := Text.pieces_ended [headerWith n] (by simpa using hfeed) (by simp)
    rw [List.intercalate_singleton] at hpieces
    have hbrace : Text.isBlank '\x7b' = false := by decide
    rw [significantLines, hpieces]
    simp [headerWith, Text.allBlank, hbrace]
  have hread : Header.read (headerWith n) =
      .error (.syntaxError (.hugeInteger (Nat.toDigits 10 n).length)) := by
    rw [Header.read, readLine, Json.read, String.toList_ofList, readDocument_headerWith n h]
    rfl
  rw [decode, String.toList_ofList, contents, hlines]
  simp only [hread]

end

theorem newer_refused_tooLong : Registry.Reachable {} ∧
    (encode {}).toList = Json.text (header {}) ++ ['\n'] ∧
    decode (String.ofList (headerWith (10 ^ 4300) ++ ['\n'])) none =
      .error ⟨.syntaxError (.hugeInteger 4301), none, some 1⟩ := by
  have hdigits := Json.length_toDigits_pow 4300 (by decide)
  have hrefused := decode_headerWith (10 ^ 4300) (by rw [hdigits]; decide) none
  rw [hdigits] at hrefused
  exact ⟨.empty, toList_encode {}, hrefused⟩

end Artifact

end DocNavigation
