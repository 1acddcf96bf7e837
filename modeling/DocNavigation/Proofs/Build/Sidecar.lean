import DocNavigation.Build.Task
import DocNavigation.Proofs.Disk.Text
import DocNavigation.Proofs.Host
import DocNavigation.Proofs.Script.Rows

/-!
Catalogs kept beside the sources. What is wrong with one is reported as malformed, and by the task of
a unit as a defect of that unit's catalog; the one exception is a script that is no UTF-8.
-/

namespace DocNavigation

namespace Catalog

/-- Fields without rows spell the empty catalog, and no others do. -/
theorem spells_empty_iff (fields : List (String × Json)) :
    Spells (.obj fields) {} ↔ ∀ f ∈ fields, f.2 = .arr [] := by
  constructor
  · rintro ⟨_, groups, hfields, hspells, hnone⟩ f hf
    cases hfields
    obtain ⟨g, hg, hgroup⟩ := Result.exists_right_of_mem hspells f hf
    have hempty : g.2 = [] := by
      have hfilled := List.filter_eq_nil_iff.mp (congrArg Catalog.groups hnone).symm g hg
      simpa using hfilled
    obtain ⟨rows, hrows, hitems⟩ := hgroup.rows
    rw [hempty, List.forall₂_nil_right_iff] at hitems
    rw [hrows, hitems]
  · intro h
    refine ⟨fields, fields.map fun f => (f.1, []), rfl, ?_, ?_⟩
    · rw [List.forall₂_map_right_iff, List.forall₂_same]
      intro f hf
      exact ⟨rfl, ⟨[], h f hf, .nil⟩, fun hne => absurd rfl hne, nofun, List.nodup_nil⟩
    · have hfilled : filled (fields.map fun f => (f.1, [])) = [] := by
        rw [filled, List.filter_map, List.map_eq_nil_iff, List.filter_eq_nil_iff]
        intro f _
        exact Bool.false_ne_true
      rw [hfilled]

end Catalog

namespace Sidecar

def rowsPath (root : String) : String :=
  Path.join root fileName

def scriptPath (root : String) : String :=
  Path.join root Sidebar.fileName

/-- The text that is read from bytes. -/
def Reads (bytes : ByteArray) (text : String) : Prop :=
  ∃ s, Text.Utf8.decode bytes = .ok s ∧ text = String.ofList (Text.unifyNewlines s.toList)

/-- The rows kept beside a root: an object if there is one, else the argument of a script's call, under
the categories of its keys. -/
inductive Keeps (d : Disk) (root : String) : List (String × Json) → Prop
  | rows (bytes : ByteArray) (text : String) (fields : List (String × Json))
    (hfile : d.isFile (rowsPath root) = true) (hbytes : d.bytes (rowsPath root) = .ok bytes)
    (htext : Reads bytes text) (hfields : Json.read text = .ok (.obj fields)) : Keeps d root fields
  | script (bytes : ByteArray) (text : String) (fields : List (String × Json))
    (hrows : d.isFile (rowsPath root) = false) (hfile : d.isFile (scriptPath root) = true)
    (hbytes : d.bytes (scriptPath root) = .ok bytes) (htext : Reads bytes text)
    (hfields : Sidebar.Holds text fields) : Keeps d root (Json.putAll [] (Sidebar.named fields))

/-- Nothing is kept beside the root. -/
structure Bare (d : Disk) (root : String) : Prop where
  rows : d.isFile (rowsPath root) = false
  script : d.isFile (scriptPath root) = false

/-- A script is what is to be read, and its bytes are no text. -/
structure Undecodable (d : Disk) (root : String) (f : Text.Utf8.Fault) : Prop where
  rows : d.isFile (rowsPath root) = false
  file : d.isFile (scriptPath root) = true
  script : ∃ bytes, d.bytes (scriptPath root) = .ok bytes ∧ Text.Utf8.decode bytes = .error f

section
variable (d : Disk) (path : String) (bytes : ByteArray) (hbytes : d.bytes path = .ok bytes)
include hbytes

theorem readText_eq_ok_iff (text : String) : d.readText path = .ok text ↔ Reads bytes text := by
  rw [Disk.readText_of_bytes d path bytes hbytes, Reads]
  cases Text.Utf8.decode bytes with
  | ok s => simp [eq_comm]
  | error f => simp

theorem readRows_eq_ok_iff (c : Catalog) : readRows d path = .ok c ↔
    ∃ text fields, Reads bytes text ∧ Json.read text = .ok (.obj fields) ∧
      Catalog.Spells (.obj fields) c := by
  simp only [← readText_eq_ok_iff d path bytes hbytes, readRows]
  cases d.readText path with
  | error e => cases e <;> simp
  | ok text =>
    cases hread : Json.read text with
    | error e => simp [hread]
    | ok v =>
      have hkeys := Json.here_of_everywhere _ v (Json.keys_of_read _ v hread)
      simp only [hread, Result.mapError_eq_ok_iff, Catalog.ofJson_eq_ok_iff v c hkeys]
      constructor
      · intro h
        obtain ⟨fields, _, rfl, -⟩ := id h
        exact ⟨text, fields, rfl, hread, h⟩
      · rintro ⟨_, fields, ⟨⟩, hread', h⟩
        cases hread.symm.trans hread'
        exact h

/-- Whatever is wrong with an object of rows is a defect of it. -/
theorem readRows_malformed (e : Fault) (h : readRows d path = .error e) : ∃ m, e = .malformed m := by
  unfold readRows at h
  rw [Disk.readText_of_bytes d path bytes hbytes] at h
  cases hdecode : Text.Utf8.decode bytes with
  | error f =>
    rw [hdecode] at h
    cases h
    exact ⟨_, rfl⟩
  | ok s =>
    simp only [hdecode] at h
    split at h
    · cases h
      exact ⟨_, rfl⟩
    case h_2 v _ =>
      cases hjson : Catalog.ofJson v with
      | ok c =>
        rw [hjson] at h
        cases h
      | error defect =>
        rw [hjson] at h
        cases h
        exact ⟨_, rfl⟩

theorem readScript_eq_ok_iff (c : Catalog) : readScript d path = .ok c ↔
    ∃ text fields, Reads bytes text ∧ Sidebar.Holds text fields ∧
      Catalog.Spells (.obj (Json.putAll [] (Sidebar.named fields))) c := by
  simp only [← readText_eq_ok_iff d path bytes hbytes, readScript]
  cases d.readText path with
  | error e => simp
  | ok text => simp [Result.mapError_eq_ok_iff, Sidebar.parse_eq_ok_iff]

/-- Bytes that are no text are not a defect of the script. -/
theorem readScript_fault (e : Fault) (h : readScript d path = .error e) :
    (∃ m, e = .malformed m) ∨ ∃ f, e = .decoding f ∧ Text.Utf8.decode bytes = .error f := by
  unfold readScript at h
  rw [Disk.readText_of_bytes d path bytes hbytes] at h
  cases hdecode : Text.Utf8.decode bytes with
  | error f =>
    rw [hdecode] at h
    cases h
    exact .inr ⟨f, rfl, rfl⟩
  | ok s =>
    simp only [hdecode] at h
    cases hparse : Sidebar.parse (String.ofList (Text.unifyNewlines s.toList)) (some path) with
    | ok c =>
      rw [hparse] at h
      cases h
    | error m =>
      rw [hparse] at h
      cases h
      exact .inl ⟨m, rfl⟩

theorem readScript_undecodable (f : Text.Utf8.Fault) (h : Text.Utf8.decode bytes = .error f) :
    readScript d path = .error (.decoding f) := by
  rw [readScript, Disk.readText_of_bytes d path bytes hbytes, h]

end

section
variable (d : Disk) (root : String)

theorem load_of_rows (h : d.isFile (rowsPath root) = true) :
    load d root = readRows d (rowsPath root) :=
  if_pos h

theorem load_of_script (hrows : d.isFile (rowsPath root) = false)
    (h : d.isFile (scriptPath root) = true) : load d root = readScript d (scriptPath root) := by
  rw [rowsPath] at hrows
  simp only [load, hrows]
  exact if_pos h

theorem load_of_bare (h : Bare d root) : load d root = .ok {} := by
  obtain ⟨hrows, hscript⟩ := h
  rw [rowsPath] at hrows
  rw [scriptPath] at hscript
  simp [load, hrows, hscript]

theorem load_eq_ok_iff (c : Catalog) : load d root = .ok c ↔
    (Bare d root ∧ c = {}) ∨ ∃ fields, Keeps d root fields ∧ Catalog.Spells (.obj fields) c := by
  cases hrows : d.isFile (rowsPath root) with
  | true =>
    obtain ⟨bytes, hbytes⟩ := Disk.exists_bytes d _ hrows
    rw [load_of_rows d root hrows, readRows_eq_ok_iff d _ bytes hbytes]
    constructor
    · rintro ⟨text, fields, htext, hfields, hc⟩
      exact .inr ⟨fields, .rows bytes text fields hrows hbytes htext hfields, hc⟩
    · rintro (⟨⟨hnone, -⟩, -⟩ | ⟨fields, hkeeps, hc⟩)
      · cases hrows.symm.trans hnone
      · cases hkeeps with
        | rows bytes' text _ _ hbytes' htext hfields =>
          cases hbytes.symm.trans hbytes'
          exact ⟨text, fields, htext, hfields, hc⟩
        | script _ _ _ hnone => cases hrows.symm.trans hnone
  | false =>
    cases hscript : d.isFile (scriptPath root) with
    | true =>
      obtain ⟨bytes, hbytes⟩ := Disk.exists_bytes d _ hscript
      rw [load_of_script d root hrows hscript, readScript_eq_ok_iff d _ bytes hbytes]
      constructor
      · rintro ⟨text, fields, htext, hfields, hc⟩
        exact .inr ⟨_, .script bytes text fields hrows hscript hbytes htext hfields, hc⟩
      · rintro (⟨⟨-, hnone⟩, -⟩ | ⟨_, hkeeps, hc⟩)
        · cases hscript.symm.trans hnone
        · cases hkeeps with
          | rows _ _ _ hfile => cases hrows.symm.trans hfile
          | script bytes' text fields _ _ hbytes' htext hfields =>
            cases hbytes.symm.trans hbytes'
            exact ⟨text, fields, htext, hfields, hc⟩
    | false =>
      have hbare : Bare d root := ⟨hrows, hscript⟩
      rw [load_of_bare d root hbare]
      constructor
      · rintro ⟨⟩
        exact .inl ⟨hbare, rfl⟩
      · rintro (⟨-, rfl⟩ | ⟨_, hkeeps, -⟩)
        · rfl
        · cases hkeeps with
          | rows _ _ _ hfile => cases hrows.symm.trans hfile
          | script _ _ _ _ hfile => cases hscript.symm.trans hfile

theorem load_fault (e : Fault) (h : load d root = .error e) :
    (∃ m, e = .malformed m) ∨ ∃ f, e = .decoding f ∧ Undecodable d root f := by
  cases hrows : d.isFile (rowsPath root) with
  | true =>
    obtain ⟨bytes, hbytes⟩ := Disk.exists_bytes d _ hrows
    rw [load_of_rows d root hrows] at h
    exact .inl (readRows_malformed d _ bytes hbytes e h)
  | false =>
    cases hscript : d.isFile (scriptPath root) with
    | true =>
      obtain ⟨bytes, hbytes⟩ := Disk.exists_bytes d _ hscript
      rw [load_of_script d root hrows hscript] at h
      refine (readScript_fault d _ bytes hbytes e h).imp_right ?_
      rintro ⟨f, he, hdecode⟩
      exact ⟨f, he, hrows, hscript, bytes, hbytes, hdecode⟩
    | false =>
      rw [load_of_bare d root ⟨hrows, hscript⟩] at h
      cases h

theorem load_of_undecodable (f : Text.Utf8.Fault) (h : Undecodable d root f) :
    load d root = .error (.decoding f) := by
  obtain ⟨bytes, hbytes, hdecode⟩ := h.script
  rw [load_of_script d root h.rows h.file, readScript_undecodable d _ bytes hbytes f hdecode]

end

end Sidecar

namespace ScanTask

/-- What is told of a fault in a sidecar. -/
def sidecarFault (unit : String) : Fault → Fault
  | .malformed m => .malformed ⟨.sidecar unit m.message, none, none⟩
  | e => e

theorem catalog_eq (d : Disk) (unit root : String) :
    catalog d unit root = (Sidecar.load d root).mapError (sidecarFault unit) := by
  unfold catalog
  cases Sidecar.load d root with
  | ok c => rfl
  | error e => cases e <;> rfl

/-- Scanning a tree only adds notes. -/
theorem run_scanTree (o : ScanOptions) (root : String) (h : Host) :
    ∃ h₁, (scanTree o root).run h = (Scan.tree h.disk o root, h₁) ∧ h₁.disk = h.disk := by
  simp only [scanTree, Effect.run_bind, Act.run_disk, Act.run_notes, Act.run_lift]
  cases Scan.tree h.disk o root <;> exact ⟨_, rfl, rfl⟩

/-- A unit whose tree was scanned comes with its catalog, or with what is wrong with it. -/
theorem run_scanned (o : ScanOptions) (unit root : String) (t : Tree) (h : Host)
    (htree : Scan.tree h.disk (options o) root = .ok t) :
    ((run o unit root).run h).1 =
      ((Sidecar.load h.disk root).mapError (sidecarFault unit)).map fun c => ⟨unit, t, c⟩ := by
  obtain ⟨h₁, hscan, hdisk⟩ := run_scanTree (options o) root h
  rw [htree] at hscan
  rw [run, Effect.run_bind, hscan]
  simp only
  rw [Effect.run_bind, Act.run_look, hdisk, catalog_eq]
  cases Sidecar.load h.disk root <;> rfl

end ScanTask

namespace Sidecar

/-- A root has the catalog that the rows beside it spell, the empty one if there are none, and
otherwise a defect that the task of the unit reports as one of its catalog; but bytes of a script that
are no text are reported as such. -/
theorem load_decodes (d : Disk) (root : String) :
    (∀ c, load d root = .ok c ↔
      (Bare d root ∧ c = {}) ∨ ∃ fields, Keeps d root fields ∧ Catalog.Spells (.obj fields) c) ∧
    (load d root = .ok {} ↔
      Bare d root ∨ ∃ fields, Keeps d root fields ∧ ∀ f ∈ fields, f.2 = .arr []) ∧
    (∀ f, load d root = .error (.decoding f) ↔ Undecodable d root f) ∧
    (∀ e, load d root = .error e → (∀ f, ¬ Undecodable d root f) → ∃ m, e = .malformed m) ∧
    ∀ (o : ScanOptions) (unit : String) (t : Tree) (h : Host), h.disk = d →
      Scan.tree d (ScanTask.options o) root = .ok t →
      (∀ c, load d root = .ok c → ((ScanTask.run o unit root).run h).1 = .ok ⟨unit, t, c⟩) ∧
      (∀ m, load d root = .error (.malformed m) →
        ∃ e, ((ScanTask.run o unit root).run h).1 = .error (.malformed e) ∧
          e.message = s!"Catalog sidecar of '{unit}' is invalid: {m.message}") ∧
      ∀ f, Undecodable d root f → ((ScanTask.run o unit root).run h).1 = .error (.decoding f) := by
  refine ⟨load_eq_ok_iff d root, ?_, fun f => ⟨fun hload => ?_, load_of_undecodable d root f⟩,
    fun e hload hdecodable => ?_, ?_⟩
  · simp only [load_eq_ok_iff, Catalog.spells_empty_iff, and_true]
  · rcases load_fault d root _ hload with ⟨m, hm⟩ | ⟨f', hf, hscript⟩
    · cases hm
    · cases hf
      exact hscript
  · refine (load_fault d root e hload).resolve_right ?_
    rintro ⟨f, -, hscript⟩
    exact hdecodable f hscript
  · rintro o unit t h rfl htree
    rw [ScanTask.run_scanned o unit root t h htree]
    refine ⟨fun c hload => by rw [hload]; rfl, fun m hload => ?_, fun f hscript => ?_⟩
    · rw [hload]
      exact ⟨_, rfl, String.append_empty⟩
    · rw [load_of_undecodable h.disk root f hscript]
      rfl

/-- A source with a catalog beside it. -/
def listed : Disk :=
  ⟨[], [(["src"], .folder),
    (["src", fileName], .file "\x7b\"module\":[[\"io\",\"Input\"]]\x7d".toUTF8),
    (["src", "lib"], .folder), (["src", "lib", "a.rs"], .file ⟨#[]⟩)], []⟩

def listedTree : Tree :=
  .node "" false [.node "lib" false [] ["a.rs"]] []

def listedCatalog : Catalog :=
  ⟨[("module", [⟨"io", "Input"⟩])], false⟩

theorem load_decodes_listed :
    (∃ fields, Keeps listed "/src" fields ∧ Catalog.Spells (.obj fields) listedCatalog) ∧
    Scan.tree listed (ScanTask.options { excluded := some [] }) "/src" = .ok listedTree ∧
    ((ScanTask.run { excluded := some [] } "unit" "/src").run { disk := listed }).1 =
      .ok ⟨"unit", listedTree, listedCatalog⟩ := by
  have hload : load listed "/src" = .ok listedCatalog := by decide +kernel
  have hkept : ¬ (Bare listed "/src" ∧ listedCatalog = {}) := fun h => nomatch h.2
  have htree : Scan.tree listed (ScanTask.options { excluded := some [] }) "/src" =
      .ok listedTree := by decide +kernel
  obtain ⟨hok, -, -, -, htask⟩ := load_decodes listed "/src"
  exact ⟨((hok listedCatalog).mp hload).resolve_left hkept, htree,
    (htask _ "unit" listedTree _ rfl htree).1 listedCatalog hload⟩

/-- A source with a script beside it that is no text. -/
def garbled : Disk :=
  ⟨[], [(["src"], .folder), (["src", Sidebar.fileName], .file ⟨#[0xff]⟩),
    (["src", "lib"], .folder), (["src", "lib", "a.rs"], .file ⟨#[]⟩)], []⟩

/-- The script is not reported as malformed, neither by itself nor by the task of its unit. -/
theorem garbled_escapes :
    load garbled "/src" = .error (.decoding ⟨0xff, 0, 1, .invalidStart⟩) ∧
    Scan.tree garbled (ScanTask.options { excluded := some [] }) "/src" = .ok listedTree ∧
    ((ScanTask.run { excluded := some [] } "unit" "/src").run { disk := garbled }).1 =
      .error (.decoding ⟨0xff, 0, 1, .invalidStart⟩) := by
  have hload : load garbled "/src" = .error (.decoding ⟨0xff, 0, 1, .invalidStart⟩) := by
    decide +kernel
  have htree : Scan.tree garbled (ScanTask.options { excluded := some [] }) "/src" =
      .ok listedTree := by decide +kernel
  have htask := ScanTask.run_scanned _ "unit" "/src" listedTree ⟨garbled, [], [], {}, [], []⟩ htree
  rw [hload] at htask
  exact ⟨hload, htree, htask⟩

end Sidecar

end DocNavigation
