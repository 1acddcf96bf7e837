import DocNavigation.Messages.Basic
import DocNavigation.Proofs.Disk.Text
import DocNavigation.Proofs.Host
import DocNavigation.Proofs.Template.Blame
import DocNavigation.Proofs.Template.Pieces

/-!
Looking up texts. A text is found at its key or replaced by a default or the key, and its fields are
filled or it is shown as it is, unless the caller is to blame.
-/

namespace DocNavigation

namespace Messages

/-- A text under keys, each of which is one of an object. -/
def Leads : Json → List String → String → Prop
  | v, [], s => v = .str s
  | v, k :: ks, s => ∃ fields w, v = .obj fields ∧ Json.getKey? fields k = some w ∧ Leads w ks s

theorem lookup_eq_str_iff (v : Json) (keys : List String) (s : String) :
    lookup v keys = some (.str s) ↔ Leads v keys s := by
  induction keys generalizing v with
  | nil => simp only [lookup, Leads, Option.some.injEq]
  | cons k ks ih =>
    rw [lookup, Leads, Option.bind_eq_some_iff]
    constructor
    · rintro ⟨w, hw, hlookup⟩
      unfold Json.get? at hw
      split at hw
      · exact ⟨_, w, rfl, hw, (ih w).mp hlookup⟩
      · cases hw
    · rintro ⟨fields, w, rfl, hw, hleads⟩
      exact ⟨w, hw, (ih w).mpr hleads⟩

/-- The text of a dotted key. -/
def Names (table : Json) (key s : String) : Prop :=
  ∃ keys, (keys ≠ [] ∧ (∀ k ∈ keys, '.' ∉ k.toList) ∧ Text.join "." keys = key) ∧
    Leads table keys s

theorem names_iff (table : Json) (key s : String) :
    Names table key s ↔ lookup table (Text.split '.' key) = some (.str s) := by
  rw [lookup_eq_str_iff]
  constructor
  · rintro ⟨keys, hkeys, hleads⟩
    rwa [← (Text.eq_split_iff '.' key keys).mpr hkeys]
  · exact fun hleads => ⟨_, (Text.eq_split_iff '.' key _).mp rfl, hleads⟩

/-- The text of a key before any filling. -/
structure Unfilled (table : Json) (key default text : String) : Prop where
  found : ∀ s, Names table key s → text = s
  missing : (∀ s, ¬ Names table key s) → text = if default = "" then key else default

theorem raw_unfilled (m : Messages) (key default : String) :
    Unfilled m.table key default (m.raw key default) := by
  refine ⟨fun s hs => ?_, fun hnone => ?_⟩
  · rw [raw, (names_iff _ _ _).mp hs]
  · unfold raw
    split
    · exact absurd ((names_iff _ _ _).mpr ‹_›) (hnone _)
    · rfl

/-- What the file of a locale says. The English one comes with the program. -/
structure Says (d : Disk) (locale : String) (v : Json) : Prop where
  ours : isBuiltIn (pathOf locale) = true → v = english
  theirs : isBuiltIn (pathOf locale) = false →
    ∃ text, d.readText (pathOf locale) = .ok text ∧ Json.read text = .ok v

/-- Messages are those of the file, or there are none. -/
structure Loaded (d : Disk) (locale : String) (m : Messages) : Prop where
  said : ∀ v, Says d locale v → m = ⟨v, true⟩
  silent : (∀ v, ¬ Says d locale v) → m = {}

theorem says_unique (d : Disk) (locale : String) (v w : Json) (hv : Says d locale v)
    (hw : Says d locale w) : v = w := by
  cases hbuilt : isBuiltIn (pathOf locale) with
  | true => exact (hv.ours hbuilt).trans (hw.ours hbuilt).symm
  | false =>
    obtain ⟨text, htext, hread⟩ := hv.theirs hbuilt
    obtain ⟨text', htext', hread'⟩ := hw.theirs hbuilt
    rw [htext] at htext'
    cases htext'
    rw [hread] at hread'
    cases hread'
    rfl

theorem loaded_of_says (d : Disk) (locale : String) (v : Json) (h : Says d locale v) :
    Loaded d locale ⟨v, true⟩ :=
  ⟨fun w hw => by rw [says_unique d locale v w h hw], fun hnone => absurd h (hnone v)⟩

theorem loadFile_eq_ok_iff (d : Disk) (path : String) (m : Messages) : loadFile d path = .ok m ↔
    ∃ text v, d.readText path = .ok text ∧ Json.read text = .ok v ∧ m = ⟨v, true⟩ := by
  unfold loadFile parse
  split
  · next text htext =>
    cases hread : Json.read text with
    | ok v => simp [htext, hread, eq_comm]
    | error e => simp [htext, hread]
  · next e htext => simp [htext]

theorem run_load (locale : String) (h : Host) : ∃ m notes,
    (load locale).run h = (.ok m, { h with journal := h.journal ++ notes }) ∧
      Loaded h.disk locale m := by
  have hsilent : isBuiltIn (pathOf locale) = false →
      (∀ m, loadFile h.disk (pathOf locale) ≠ .ok m) → Loaded h.disk locale {} := by
    intro hown hfail
    have hnone : ∀ v, ¬ Says h.disk locale v := by
      intro v hv
      obtain ⟨text, htext, hread⟩ := hv.theirs hown
      exact hfail _ ((loadFile_eq_ok_iff _ _ _).mpr ⟨text, v, htext, hread, rfl⟩)
    exact ⟨fun v hv => absurd hv (hnone v), fun _ => rfl⟩
  unfold load
  simp only [Effect.run_bind, Act.run_disk]
  cases hbuilt : isBuiltIn (pathOf locale) with
  | true =>
    exact ⟨builtIn, _, rfl, loaded_of_says _ _ english
      ⟨fun _ => rfl, fun hown => nomatch hbuilt.symm.trans hown⟩⟩
  | false =>
    cases hthere : h.disk.isThere (pathOf locale) with
    | false =>
      refine ⟨{}, _, rfl, hsilent hbuilt fun m hm => ?_⟩
      obtain ⟨text, v, htext, -, -⟩ := (loadFile_eq_ok_iff _ _ _).mp hm
      rw [Disk.isThere_of_readText _ _ _ htext] at hthere
      cases hthere
    | true =>
      cases hfile : loadFile h.disk (pathOf locale) with
      | ok m =>
        obtain ⟨text, v, htext, hread, rfl⟩ := (loadFile_eq_ok_iff _ _ _).mp hfile
        exact ⟨_, _, rfl, loaded_of_says _ _ v
          ⟨fun hours => (nomatch hbuilt.symm.trans hours), fun _ => ⟨text, htext, hread⟩⟩⟩
      | error message =>
        refine ⟨{}, _, rfl, hsilent hbuilt fun m hm => ?_⟩
        rw [hfile] at hm
        cases hm

/-- What comes of an unfilled text. Without arguments nothing is filled in, and a text whose fields
cannot be filled is kept, with a note about it, unless the caller is to blame. -/
def Outcome (key : String) (args : List (String × Json)) (unfilled : String) :
    Except TemplateError (String × List Note) → Prop
  | .ok (s, notes) =>
    (args = [] ∧ s = unfilled ∧ notes = []) ∨
    (args ≠ [] ∧ Template.render args unfilled = .ok s ∧ notes = []) ∨
    ∃ e, args ≠ [] ∧ Template.render args unfilled = .error e ∧ e.blame? = none ∧ s = unfilled ∧
      notes = [.debug s!"I18n: Formatting error for '{key}': {e.message}"]
  | .error e => args ≠ [] ∧ Template.render args unfilled = .error e ∧
    ∃ b, e.blame? = some b ∧ Template.Cause args (Template.HasField unfilled.toList) b

theorem fill_outcome (key text : String) (args : List (String × Json))
    (hargs : ∀ p ∈ args, (∃ s, p.2 = .str s) ∨ ∃ n, p.2 = .int n) :
    Outcome key args text (fill key text args) := by
  unfold fill
  split
  · next hempty => exact .inl ⟨by simpa using hempty, rfl, rfl⟩
  · next hempty =>
    have hsome : args ≠ [] := by simpa using hempty
    cases hrender : Template.render args text with
    | ok s => exact .inr (.inl ⟨hsome, hrender, rfl⟩)
    | error e =>
      simp only
      cases hblame : e.blame? with
      | none => exact .inr (.inr ⟨e, hsome, hrender, hblame, rfl, rfl⟩)
      | some b =>
        have hmeets := (Template.meets_renderFrom args hargs Template.maxDepth (text.length + 1)
          text.toList []).map (R := fun _ => True) _ String.ofList fun _ => id
        change TemplateError.Meets _ _ (Template.render args text) at hmeets
        rw [hrender] at hmeets
        exact ⟨hsome, hrender, b, hblame, hmeets b hblame⟩

theorem fill_pieces (key : String) (args : List (String × Json)) (hargs : args ≠ [])
    (ps : List Template.Piece) (hps : ∀ p ∈ ps, p.Fits args) :
    fill key (String.ofList (ps.flatMap Template.Piece.spelled)) args =
      .ok (String.ofList (ps.flatMap Template.Piece.shown), []) := by
  rw [fill, if_neg (by simpa using hargs), Template.render_pieces args ps hps]

/-- A file with a text that is filled in, and with texts that are not. -/
def listing : Disk :=
  let texts := "\x7b\"a\":\x7b\"b\":\"\x7bpath\x7d: \x7bcount:03\x7d\"\x7d,"
    ++ "\"c\":\"\x7bcount.y\x7d\",\"d\":\"\x7bpath[k]\x7d\",\"e\":\"\x7bcount:c\x7d\"\x7d"
  ⟨[], [(["LOCALES"], .folder), (["LOCALES", "de.json"], .file texts.toUTF8)], []⟩

def listed : Messages :=
  ⟨.obj [("a", .obj [("b", .str "\x7bpath\x7d: \x7bcount:03\x7d")]),
    ("c", .str "\x7bcount.y\x7d"), ("d", .str "\x7bpath[k]\x7d"),
    ("e", .str "\x7bcount:c\x7d")], true⟩

def counting (n : Int) : List (String × Json) :=
  [("path", .str "x"), ("count", .int n)]

/-- What is read from the file, and what comes of its texts. -/
theorem run_listing :
    (((load "de").run { disk := listing }).1 = .ok listed ∧
      lookup listed.table (Text.split '.' "a.b") = some (.str "\x7bpath\x7d: \x7bcount:03\x7d") ∧
      listed.text "a.b" "" (counting 7) = .ok ("x: 007", [])) ∧
    listed.text "c" "" (counting 1) = .error (.noAttribute "int" "y") ∧
    listed.text "d" "" (counting 1) = .error (.textIndex "str") ∧
    listed.text "e" "" (counting (-1)) = .error .charOutOfRange := by
  decide +kernel

end Messages

end DocNavigation
