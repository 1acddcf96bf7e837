import DocNavigation.Disk.Basic
import DocNavigation.Number.Power

/-!
Changing a disk: writing, creating folders, renaming and removing, and replacing a file as a whole.
A failure leaves what was done before it.
-/

namespace DocNavigation

/-- Changes to a disk that can fail half way. -/
abbrev DiskAct := ExceptT DiskError (StateM Disk)

namespace Disk

/-- The place of the file that opening a path for writing gives, or is to create. -/
def writable (d : Disk) (path : String) : Except DiskError Place :=
  let isAFolder := Except.error (DiskError.refused .isAFolder path none)
  if Text.endsWith "/" path then
    let above := String.ofList (Path.dropSlashes path.toList)
    if above = "" then isAFolder
    else match d.resolve false above with
      | .error (.refused r _ _) => .error (.refused r path none)
      | .error e => .error e
      | .ok _ => isAFolder
  else match d.resolve true path with
    | .error e => .error e
    | .ok (.entry _ .folder) => isAFolder
    | .ok (.entry p _) => .ok p
    | .ok (.vacant p) => .ok p

def apply (f : Disk → Except DiskError Disk) : DiskAct Unit := do
  match f (← get) with
  | .ok d => set d
  | .error e => throw e

/-- Fails if the device does. -/
def attempt (step : DiskStep) : DiskAct Unit := do
  if (← get).failing.contains step then throw .device

def putFile (p : Place) (bytes : ByteArray) : DiskAct Unit := do
  attempt .write
  modify (·.put p (.file bytes))

/-- Empties a file, or creates it, and fills it. -/
def writeFile (path : String) (bytes : ByteArray) : DiskAct Unit := do
  match (← get).writable path with
  | .error e => throw e
  | .ok p =>
    attempt .create
    modify (·.put p (.file .empty))
    putFile p bytes

/-- Adds bytes at the end of a file, creating it if need be. -/
def appendFile (path : String) (bytes : ByteArray) : DiskAct Unit := do
  let d ← get
  match d.writable path with
  | .error e => throw e
  | .ok p =>
    attempt .create
    let old := match d.at? p with
      | some (.file old) => old
      | _ => .empty
    modify (·.put p (.file old))
    putFile p (old ++ bytes)

def makeFolder (path : String) : DiskAct Unit := do
  attempt .makeFolder
  apply fun d =>
    match d.resolve false path with
    | .error e => .error e
    | .ok (.entry ..) => .error (.refused .taken path none)
    | .ok (.vacant p) => .ok (d.put p .folder)

/-- The folder part of a path and its last name, slashes at the end left out. -/
def lastName (path : String) : String × String :=
  let (folder, name) := Path.split path
  if name = "" then Path.split folder else (folder, name)

/-- Creates a folder and those above it. That something is there already is no failure if it is a
folder. -/
def makeFoldersBelow : (fuel : Nat) → String → DiskAct Unit
  | 0, _ => pure ()
  | fuel + 1, path => do
    let (above, name) := lastName path
    if above ≠ "" ∧ name ≠ "" ∧ !(← get).isThere above then
      try makeFoldersBelow fuel above
      catch
        | .refused .taken _ _ => pure ()
        | e => throw e
    try makeFolder path
    catch e => if (← get).isFolder path then pure () else throw e

def makeFolders (path : String) : DiskAct Unit :=
  makeFoldersBelow (path.length + 1) path

/-- Takes a file from its place to another path, over whatever file or link is there. -/
def moveFile (source : Place) (path target : String) : DiskAct Unit := do
  attempt .move
  apply fun d =>
    let refused := fun r => Except.error (DiskError.refused r path (some target))
    match d.at? source with
    | none => refused .missing
    | some e =>
      if (namesIn target).all (· = ".") then refused .busy
      else match d.resolve false target with
        | .error (.refused r _ _) => refused r
        | .error e => .error e
        | .ok (.entry _ .folder) => refused .isAFolder
        | .ok (.entry p _) | .ok (.vacant p) => .ok ((d.erase source).put p e)

/-- What a temporary file is called when it is spoken of. -/
def usualTemporary : String := ".navindex-TMP.tmp"

/-- Temporary files get names of this length. -/
def sampleTemporary : String := ".navindex-________.tmp"

/-- A name that is not among those taken. -/
def temporaryName (taken : List String) : String :=
  if taken.contains sampleTemporary then
    sampleTemporary ++ String.ofList (List.replicate (Number.total (taken.map String.length)) '~')
  else sampleTemporary

end Disk

end DocNavigation
