import DocNavigation.Artifact.Encode

/-!
Decoding artifacts. Lines end with line feeds only and blank lines do not count. Records are taken
in order until the first defect, so that what was understood before it can still be told.
-/

namespace DocNavigation.Artifact

def readLine (line : List Char) : Except Defect Json :=
  match Json.read (String.ofList line) with
  | .ok v => .ok v
  | .error e => .error (.syntaxError e)

structure Header where
  version : Int
  units : List String
deriving DecidableEq, Repr

def unitNames? (v : Json) : Option (List String) :=
  match v with
  | .arr items => items.mapM fun
    | .str "" => none
    | .str s => some s
    | _ => none
  | _ => none

def checkVersion (v : Json) : Except Defect Int :=
  match v with
  | .int n => if 1 ≤ n then .ok n else .error (.version v)
  | v => .error (.version v)

/-- The format is looked at first, then the version, then the names. -/
def Header.ofFields (fields : List (String × Json)) : Except Defect Header :=
  let field := fun key => (Json.getKey? fields key).getD .null
  if field "format" ≠ .str formatName then .error (.unknownFormat (field "format"))
  else match checkVersion (field "version") with
    | .error e => .error e
    | .ok version =>
      match unitNames? (field "units") with
      | some units => .ok ⟨version, units⟩
      | none => .error .unitList

def Header.read (line : List Char) : Except Defect Header :=
  match readLine line with
  | .error e => .error e
  | .ok (.obj fields) => Header.ofFields fields
  | .ok _ => .error .headerNotObject

def Header.notes (h : Header) : List Note :=
  if formatVersion < h.version then
    [.debug s!"Artifact: Reading version {h.version} with a version {formatVersion} reader."]
  else []

def readComponent (line : List Char) : Except Defect Component :=
  match readLine line with
  | .error e => .error e
  | .ok v => Component.ofJson v

/-- One record, which has to be for the unit that the header lists in its place. -/
def addRecord (r : Registry) (expected : String) (line : List Char) : Except Defect Registry :=
  match readComponent line with
  | .error e => .error e
  | .ok u =>
    if u.name ≠ expected then .error (.recordName u.name expected)
    else match r.add u with
      | .ok r => .ok r
      | .error _ => .error (.repeatedUnit u.name)

/-- Adds records until one is defective. Numbers count the lines that are not blank. -/
def addRecords (r : Registry) : (expected : List String) → (lines : List (List Char)) →
    (number : Nat) → Registry × Option (Defect × Nat)
  | name :: names, line :: lines, number =>
    match addRecord r name line with
    | .ok r => addRecords r names lines (number + 1)
    | .error e => (r, some (e, number))
  | _, _, _ => (r, none)

/-- What a text holds: the units before the first defect, and that defect. -/
structure Contents where
  registry : Registry
  notes : List Note
  fault : Option Malformed

def significantLines (text : List Char) : List (List Char) :=
  (Text.pieces '\n' text).filter fun line => !Text.allBlank line

def contents (text : List Char) (source : Option String) : Contents :=
  match significantLines text with
  | [] => ⟨{}, [], some ⟨.empty, source, none⟩⟩
  | first :: records =>
    match Header.read first with
    | .error e => ⟨{}, [], some ⟨e, source, some 1⟩⟩
    | .ok h =>
      if records.length ≠ h.units.length then
        ⟨{}, h.notes, some ⟨.announced h.units.length records.length, source, none⟩⟩
      else
        let (r, fault) := addRecords {} h.units records 2
        ⟨r, h.notes ++ r.units.map Registry.registered,
          fault.map fun (e, number) => ⟨e, source, some number⟩⟩

/-- A text without a defect gives a frozen registry. -/
def decode (text : String) (source : Option String) : Except Malformed Registry :=
  let c := contents text.toList source
  match c.fault with
  | none => .ok c.registry.freeze
  | some m => .error m

def decodeNotes (text : String) (source : Option String) : List Note :=
  (contents text.toList source).notes

end DocNavigation.Artifact
