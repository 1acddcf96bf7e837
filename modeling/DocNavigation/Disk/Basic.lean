import DocNavigation.Path.Basic
import DocNavigation.Text.Quoted
import DocNavigation.Text.Utf8

/-!
Disks: files, folders and links, each at a place told by the names on the way from the root. A path
is followed name by name, and links on the way are replaced by their targets.
-/

namespace DocNavigation

abbrev Place := List String

inductive DiskEntry where
  | file (bytes : ByteArray)
  | folder
  | link (target : String)
deriving DecidableEq

/-- What a device does for a change. -/
inductive DiskStep where
  | makeFolder
  | create
  | write
  | move
deriving DecidableEq, Repr

/-- Relative paths start from the working folder. -/
structure Disk where
  workdir : Place
  entries : List (Place × DiskEntry) := []
  /-- The steps at which the device fails. -/
  failing : List DiskStep := []
deriving DecidableEq

inductive Refusal where
  | missing
  | busy
  | taken
  | notAFolder
  | isAFolder
  | nameTooLong
  | linkLoop
deriving DecidableEq, Repr

inductive DiskError where
  | refused (r : Refusal) (path : String) (target : Option String)
  | device
  | nullByte
deriving DecidableEq, Repr

/-- Where a path leads: to an entry, or to a free name in a folder. -/
inductive Found where
  | entry (place : Place) (e : DiskEntry)
  | vacant (place : Place)
deriving DecidableEq

def Found.place : Found → Place
  | .entry p _ => p
  | .vacant p => p

namespace Disk

/-- The root is a folder on every disk. -/
def at? (d : Disk) (p : Place) : Option DiskEntry :=
  if p = [] then some .folder else (d.entries.find? (·.1 = p)).map (·.2)

def put (d : Disk) (p : Place) (e : DiskEntry) : Disk :=
  { d with entries := (p, e) :: d.entries.filter (·.1 ≠ p) }

def erase (d : Disk) (p : Place) : Disk :=
  { d with entries := d.entries.filter (·.1 ≠ p) }

/-- Puts an entry at a place together with the folders that lead there. -/
def plant (d : Disk) (p : Place) (e : DiskEntry) : Disk :=
  let above := (List.range p.length).map (p.take ·)
  let d := above.foldl (fun d q => if (d.at? q).isSome then d else d.put q .folder) d
  d.put p e

def children (d : Disk) (p : Place) : List (String × DiskEntry) :=
  d.entries.filterMap fun (q, e) =>
    match q.getLast? with
    | some name => if q.dropLast = p then some (name, e) else none
    | none => none

/-- The names in a path; a slash at the end asks for a folder. -/
def namesIn (path : String) : List String :=
  (Text.split '/' path).filter (· ≠ "") ++ (if Text.endsWith "/" path then ["."] else [])

/-- Longer names are refused; the length is in bytes. -/
def maxNameLength : Nat := 255

def maxPathLength : Nat := 4095

def maxLinks : Nat := 40

/-- Follows names from a folder. What comes after a link is left to `follow`, which gets the link's
target, its folder and the names still to go; a link at the end is followed only on demand. -/
def walk (d : Disk) (atEnd : Bool) (follow : String → Place → List String → Except Refusal Found) :
    List String → Place → Except Refusal Found
  | [], p => .ok (.entry p .folder)
  | s :: rest, p =>
    if s = "." then d.walk atEnd follow rest p
    else if s = ".." then d.walk atEnd follow rest p.dropLast
    else if maxNameLength < s.utf8ByteSize then .error .nameTooLong
    else match d.at? (p ++ [s]) with
      | none => if rest.isEmpty then .ok (.vacant (p ++ [s])) else .error .missing
      | some .folder => d.walk atEnd follow rest (p ++ [s])
      | some (.file bytes) =>
        if rest.isEmpty then .ok (.entry (p ++ [s]) (.file bytes)) else .error .notAFolder
      | some (.link target) =>
        if rest.isEmpty && !atEnd then .ok (.entry (p ++ [s]) (.link target))
        else follow target p rest

def start (d : Disk) (path : String) : Place :=
  if Path.isRooted path then [] else d.workdir

/-- Follows names through at most so many links. -/
def through (d : Disk) (atEnd : Bool) :
    (links : Nat) → List String → Place → Except Refusal Found
  | 0 => d.walk atEnd fun _ _ _ => .error .linkLoop
  | links + 1 => d.walk atEnd fun target p rest =>
    d.through atEnd links (namesIn target ++ rest) (if Path.isRooted target then [] else p)

def find (d : Disk) (atEnd : Bool) (path : String) : Except Refusal Found :=
  if path = "" then .error .missing
  else if maxPathLength < path.utf8ByteSize then .error .nameTooLong
  else d.through atEnd maxLinks (namesIn path) (d.start path)

/-- Where a path leads; links at its end are followed if asked. -/
def resolve (d : Disk) (atEnd : Bool) (path : String) : Except DiskError Found :=
  if path.toList.contains '\x00' then .error .nullByte
  else (d.find atEnd path).mapError fun r => .refused r path none

/-- What is behind a path, if anything. -/
def entry? (d : Disk) (path : String) : Option DiskEntry :=
  match d.resolve true path with
  | .ok (.entry _ e) => some e
  | _ => none

def isThere (d : Disk) (path : String) : Bool :=
  (d.entry? path).isSome

def isFile (d : Disk) (path : String) : Bool :=
  match d.entry? path with
  | some (.file _) => true
  | _ => false

def isFolder (d : Disk) (path : String) : Bool :=
  d.entry? path = some .folder

def readFile (d : Disk) (path : String) : Except DiskError ByteArray :=
  match d.resolve true path with
  | .error e => .error e
  | .ok (.entry _ (.file bytes)) => .ok bytes
  | .ok (.entry _ .folder) => .error (.refused .isAFolder path none)
  | .ok _ => .error (.refused .missing path none)

/-- The absolute text of a place. -/
def textOf (p : Place) : String :=
  "/" ++ Text.join "/" p

def absolute (d : Disk) (path : String) : String :=
  Path.absolute (textOf d.workdir) path

end Disk

def Refusal.number : Refusal → Nat
  | .missing => 2
  | .busy => 16
  | .taken => 17
  | .notAFolder => 20
  | .isAFolder => 21
  | .nameTooLong => 36
  | .linkLoop => 40

def Refusal.text : Refusal → String
  | .missing => "No such file or directory"
  | .busy => "Device or resource busy"
  | .taken => "File exists"
  | .notAFolder => "Not a directory"
  | .isAFolder => "Is a directory"
  | .nameTooLong => "File name too long"
  | .linkLoop => "Too many levels of symbolic links"

def DiskError.message : DiskError → String
  | .refused r path target =>
    s!"[Errno {r.number}] {r.text}: {Text.quoted path}"
      ++ (match target with | none => "" | some t => " -> " ++ Text.quoted t)
  | .device => "[Errno 5] Input/output error"
  | .nullByte => "embedded null byte"

end DocNavigation
