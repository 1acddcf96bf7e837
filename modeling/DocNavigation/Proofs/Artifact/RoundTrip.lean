import DocNavigation.Proofs.Json.RoundTrip
import DocNavigation.Proofs.Registry.Reachable

/-!
Decoding undoes encoding. Every line of an artifact is printable and begins with a brace, so that no
name or summary can end a line or make it look blank.
-/

namespace DocNavigation

namespace Json

theorem strings_restorable (items : List String) : (strings items).Everywhere Restorable := by
  refine ⟨trivial, (everywhereItems_iff _ _).mpr ?_⟩
  rw [List.forall_mem_map]
  intro s _
  trivial

end Json

namespace Tree

mutual

theorem toJson_restorable : (t : Tree) → t.toJson.Everywhere Json.Restorable
  | .node n _ ds fs => by
    have hkeys : Json.Restorable (Tree.node n false ds fs).toJson := by
      simp [toJson, Json.Restorable]
    exact ⟨hkeys, trivial, ⟨trivial, toJsonAll_restorable ds⟩, Json.strings_restorable fs, trivial⟩

theorem toJsonAll_restorable : (ts : List Tree) →
    Json.EverywhereItems Json.Restorable (toJsonAll ts)
  | [] => trivial
  | t :: ts => ⟨toJson_restorable t, toJsonAll_restorable ts⟩

end

end Tree

theorem Catalog.toJson_restorable (c : Catalog) (hc : c.WellFormed) :
    c.toJson.Everywhere Json.Restorable := by
  refine ⟨toJson_distinctKeys c hc, (Json.everywhereFields_iff _ _).mpr ?_⟩
  rw [toFields, List.forall_mem_map]
  intro g _
  refine ⟨trivial, (Json.everywhereItems_iff _ _).mpr ?_⟩
  rw [List.forall_mem_map]
  intro i _
  exact Json.strings_restorable _

namespace Component

/-- The unit with open parts, as it is before it is registered. -/
def copy (u : Component) : Component :=
  { u with tree := u.tree.copy, catalog := u.catalog.copy }

theorem close_copy (u : Component) : u.copy.close = u.close := by
  simp [copy, close, Tree.copy, Tree.close, Tree.withSeal_withSeal, Catalog.copy, Catalog.close]

theorem toJson_restorable (u : Component) (hu : u.WellFormed) :
    u.toJson.Everywhere Json.Restorable := by
  have hkeys : Json.Restorable u.toJson := by
    simp [toJson, Json.Restorable]
  exact ⟨hkeys, trivial, Tree.toJson_restorable u.tree, Catalog.toJson_restorable u.catalog hu.catalog,
    trivial⟩

theorem spells_toJson (u : Component) (hu : u.WellFormed) : Spells u.toJson u.copy :=
  ⟨hu.name, _, _, _, rfl, rfl, rfl, Tree.spells_toJson u.tree hu.tree true nofun, rfl,
    Catalog.spells_toJson u.catalog hu.catalog⟩

end Component

namespace Artifact

/-- The values of the lines. -/
def values (r : Registry) : List Json :=
  header r :: r.units.map Component.toJson

theorem header_restorable (r : Registry) : (header r).Everywhere Json.Restorable := by
  have hkeys : Json.Restorable (header r) := by
    simp [header, Json.Restorable]
  have hversion : (Nat.toDigits 10 formatVersion.natAbs).length ≤ Number.maxDigits := by decide
  exact ⟨hkeys, trivial, hversion, Json.strings_restorable r.names, trivial⟩

theorem values_restorable (r : Registry) (hr : ∀ u ∈ r.units, u.WellFormed) :
    ∀ v ∈ values r, v.Everywhere Json.Restorable := by
  rw [values, List.forall_mem_cons, List.forall_mem_map]
  exact ⟨header_restorable r, fun u hu => Component.toJson_restorable u (hr u hu)⟩

theorem toList_encode (r : Registry) :
    (encode r).toList = ['\n'].intercalate ((values r).map Json.text) ++ ['\n'] := by
  rw [encode, String.toList_append, String.toList_intercalate, records, List.map_map]
  rfl

theorem values_isObj (r : Registry) : ∀ v ∈ values r, ∃ fields, v = .obj fields := by
  rw [values, List.forall_mem_cons, List.forall_mem_map]
  exact ⟨⟨_, rfl⟩, fun u _ => ⟨_, rfl⟩⟩

theorem lines_encode (r : Registry) (hr : ∀ u ∈ r.units, u.WellFormed) :
    ((encode r).toList.splitOn '\n').filter (fun line => !Text.allBlank line) =
      (values r).map Json.text := by
  have hprintable : ∀ l ∈ (values r).map Json.text, '\n' ∉ l := by
    rw [List.forall_mem_map]
    intro v hv
    exact Json.feed_not_mem_of_printable _ (Json.printable_text v (values_restorable r hr v hv))
  have hfull : ∀ l ∈ (values r).map Json.text, (!Text.allBlank l) = true := by
    rw [List.forall_mem_map]
    intro v hv
    obtain ⟨fields, rfl⟩ := values_isObj r v hv
    have hbrace : Text.isBlank '\x7b' = false := by decide
    simp [Json.text_obj, Text.allBlank, hbrace]
  rw [toList_encode, ← Text.pieces_eq_splitOn, Text.pieces_ended _ hprintable (by simp [values]),
    List.filter_append, List.filter_eq_self.mpr hfull]
  simp [Text.allBlank]

theorem spells_encode (r : Registry) (hnames : r.names.Nodup) (hr : ∀ u ∈ r.units, u.WellFormed) :
    Spells (encode r) (r.units.map Component.copy) := by
  have hsame : (r.units.map Component.copy).map (·.name) = r.names := by
    rw [List.map_map]
    rfl
  have hread : ∀ v ∈ values r, Json.read (String.ofList (Json.text v)) = .ok v := by
    intro v hv
    rw [Json.text, String.ofList_toList]
    exact Json.read_write v (values_restorable r hr v hv)
  refine ⟨by rwa [hsame], Json.text (header r), (r.units.map Component.toJson).map Json.text,
    header r, lines_encode r hr, hread _ (List.mem_cons_self ..), ?_, ?_⟩
  · rw [hsame]
    exact ⟨_, 1, rfl, rfl, rfl, by decide, rfl⟩
  · rw [List.map_map, List.forall₂_map_left_iff, List.forall₂_map_right_iff, List.forall₂_same]
    intro u hu
    exact ⟨u.toJson, hread _ (List.mem_cons_of_mem _ (List.mem_map_of_mem hu)),
      Component.spells_toJson u (hr u hu)⟩

/-- Everything but the seals comes back, in the same order. -/
theorem decode_copies (r : Registry) (text : String) (source : Option String)
    (h : Spells text (r.units.map Component.copy)) :
    decode text source = .ok ⟨r.units.map Component.close, true⟩ := by
  refine (decode_eq_ok_iff _ _ _).mpr ⟨_, h, ?_⟩
  rw [List.map_map]
  refine congrArg (Registry.mk · true) (List.map_congr_left fun u _ => ?_)
  exact (Component.close_copy u).symm

theorem decode_encode (r : Registry) (source : Option String) (hnames : r.names.Nodup)
    (hr : ∀ u ∈ r.units, u.WellFormed) :
    decode (encode r) source = .ok ⟨r.units.map Component.close, true⟩ :=
  decode_copies r _ source (spells_encode r hnames hr)

theorem encode_close (r : Registry) (frozen : Bool) :
    encode ⟨r.units.map Component.close, frozen⟩ = encode r := by
  have hnames : Registry.names ⟨r.units.map Component.close, frozen⟩ = r.names :=
    Component.map_name_close r.units
  have hrecords : (r.units.map Component.close).map Component.toJson =
      r.units.map Component.toJson := by
    rw [List.map_map]
    exact List.map_congr_left fun u _ => Component.toJson_close u
  unfold encode records header
  rw [hnames, hrecords]

/-- Whatever can be registered, merged, decoded or imported survives in an artifact. -/
theorem artifact_roundTrip (r : Registry) (source : Option String) (hr : r.Reachable) :
    ∃ s, decode (encode r) source = .ok s ∧ s.frozen = true ∧ s.names = r.names ∧
      List.Forall₂ (fun u v => Component.same u v = true) s.units r.units ∧
      encode s = encode r := by
  obtain ⟨hnames, hbuilt⟩ := Registry.Reachable.sound r hr
  have hwell := fun u hu => Component.Built.wellFormed u (hbuilt u hu)
  refine ⟨_, decode_encode r source hnames hwell, rfl, Component.map_name_close r.units, ?_,
    encode_close r true⟩
  rw [List.forall₂_map_left_iff, List.forall₂_same]
  intro u _
  exact Component.close_same u

/-- A unit with quotes and all kinds of line ends in its texts. -/
def lineEnds : Registry where
  units := [⟨"co\"re\n\u2028", .node "ro\"ot\r" true [.node "s\n" true [] ["m\x85"]] [],
    ⟨[("k\n", [⟨"n\"", "\u2028\r\n"⟩])], true⟩⟩]

theorem lineEnds_reachable : lineEnds.Reachable := by
  have htree : Tree.Built (.node "ro\"ot\r" false [.node "s\n" false [] ["m\x85"]] []) :=
    .edit (Tree.empty "ro\"ot\r") _ _ [] (.empty _) rfl
      (.insertFile _ _ (.arr [.str "s\n", .str "m\x85"]) _ rfl rfl)
  have hcatalog : Catalog.Built ⟨[("k\n", [⟨"n\"", "\u2028\r\n"⟩])], false⟩ :=
    .addValues {} _ (.str "k\n") (.str "n\"") (.str "\u2028\r\n") _ .empty rfl
  exact .register {} _ (.str "co\"re\n\u2028") _ _ _ .empty htree hcatalog rfl

theorem artifact_roundTrip_lineEnds : lineEnds.Reachable ∧ ∃ s,
    decode (encode lineEnds) none = .ok s ∧ s.frozen = true ∧ s.names = lineEnds.names ∧
      List.Forall₂ (fun u v => Component.same u v = true) s.units lineEnds.units ∧
      encode s = encode lineEnds :=
  ⟨lineEnds_reachable, artifact_roundTrip lineEnds none lineEnds_reachable⟩

end Artifact

end DocNavigation
