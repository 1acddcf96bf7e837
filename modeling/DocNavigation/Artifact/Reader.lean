import DocNavigation.Artifact.Decode

/-!
Looking into an artifact without decoding all of it. Opening reads the header alone; a lookup walks
the lines and decodes the record in the unit's place.
-/

namespace DocNavigation.Artifact

/-- Lines as a reader meets them: those delivered, and the fault that came after them. -/
structure LineStream where
  lines : List (List Char)
  fault : Option Text.Utf8.Fault
deriving DecidableEq, Repr

/-- A line that a fault interrupts is not delivered. -/
def LineStream.ofBytes (bytes : ByteArray) : LineStream :=
  let (cs, fault) := Text.Utf8.decodeStream bytes
  let lines := Text.lines (Text.unifyNewlines cs)
  match fault with
  | none => ⟨lines, none⟩
  | some f => ⟨lines.filter fun line => line.getLast? = some '\n', some f⟩

inductive ReaderError where
  | malformed (m : Malformed)
  | encoding (f : Text.Utf8.Fault)
  | notFound (name : String)
deriving DecidableEq, Repr

structure Reader where
  path : String
  header : Header
deriving DecidableEq, Repr

namespace Reader

def firstRepeated? : (names seen : List String) → Option String
  | [], _ => none
  | n :: ns, seen => if seen.contains n then some n else firstRepeated? ns (n :: seen)

def opened (path : String) (first : List Char) : Except ReaderError Reader :=
  if Text.allBlank first then .error (.malformed ⟨.empty, some path, none⟩)
  else match Header.read first with
    | .error e => .error (.malformed ⟨e, some path, some 1⟩)
    | .ok h =>
      match firstRepeated? h.units [] with
      | some name => .error (.malformed ⟨.listedTwice name, some path, none⟩)
      | none => .ok ⟨path, h⟩

def openStream (path : String) (s : LineStream) : Except ReaderError Reader :=
  match s.lines, s.fault with
  | first :: _, _ => opened path first
  | [], some f => .error (.encoding f)
  | [], none => opened path []

def names (r : Reader) : List String :=
  r.header.units

def size (r : Reader) : Nat :=
  r.names.length

def contains (r : Reader) (name : String) : Bool :=
  r.names.contains name

/-- The records with the numbers of their lines; the header is the first line. -/
def records (s : LineStream) : List (Nat × List Char) :=
  ((s.lines.drop 1).zipIdx 2).filterMap fun (line, number) =>
    if Text.allBlank line then none else some (number, line)

def component (r : Reader) (number : Nat) (line : List Char) : Except ReaderError Component :=
  match readComponent line with
  | .ok u => .ok u
  | .error e => .error (.malformed ⟨e, some r.path, some number⟩)

def get (r : Reader) (s : LineStream) (name : String) : Except ReaderError Component :=
  match r.names.findIdx? (· = name) with
  | none => .error (.notFound name)
  | some index =>
    match (records s)[index]?, s.fault with
    | some (number, line), _ =>
      match r.component number line with
      | .error e => .error e
      | .ok u =>
        if u.name = name then .ok u.close
        else .error (.malformed ⟨.recordName u.name name, some r.path, some number⟩)
    | none, some f => .error (.encoding f)
    | none, none => .error (.malformed ⟨.missingRecord name, some r.path, none⟩)

/-- Decodes records while the header announces them. -/
def collect (r : Reader) (fault : Option Text.Utf8.Fault) :
    (left : Nat) → List (Nat × List Char) → List Component × Option ReaderError
  | _, [] => ([], fault.map .encoding)
  | 0, _ :: _ => ([], some (.malformed ⟨.extraRecords, some r.path, none⟩))
  | left + 1, (number, line) :: rest =>
    match r.component number line with
    | .error e => ([], some e)
    | .ok u =>
      let (us, e) := r.collect fault left rest
      (u.close :: us, e)

/-- The units in order, and the error that ended them. -/
def units (r : Reader) (s : LineStream) : List Component × Option ReaderError :=
  r.collect s.fault r.size (records s)

end Reader

def ReaderError.message : ReaderError → String
  | .malformed m => m.message
  | .encoding f => f.message
  | .notFound unit => s!"Unit '{unit}' not found."

end DocNavigation.Artifact
