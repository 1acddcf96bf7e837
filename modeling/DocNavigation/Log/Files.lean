import DocNavigation.Disk.Write

/-!
Log files. A file that a line would take to its limit is turned over: it becomes the first of the
old files, and each of those the next one.
-/

namespace DocNavigation.LogFile

def numbered (path : String) (n : Nat) : String :=
  s!"{path}.{n}"

def remove (path : String) : DiskAct Unit := do
  match (← get).resolve false path with
  | .error e => throw e
  | .ok (.entry _ .folder) => throw (.refused .isAFolder path none)
  | .ok (.entry p _) => modify (·.erase p)
  | .ok (.vacant _) => throw (.refused .missing path none)

/-- Puts a file or folder in the place of another one, if it is there at all. -/
def shift (source target : String) : DiskAct Unit := do
  let d ← get
  if d.isThere source then
    if d.isThere target then remove target
    match (← get).resolve false source with
    | .ok (.entry p _) => Disk.moveFile p source target
    | _ => throw (.refused .missing source (some target))

/-- Makes the old files older and the file itself the first of them. -/
def turnOver (path : String) (backups : Nat) : DiskAct Unit := do
  for n in (List.range (backups - 1)).reverse do
    shift (numbered path (n + 1)) (numbered path (n + 2))
  let newest := numbered path 1
  if (← get).isThere newest then remove newest
  shift path newest

def sizeOf (d : Disk) (path : String) : Nat :=
  match d.readFile path with
  | .ok bytes => bytes.size
  | .error _ => 0

/-- Whether a line would take the file to its limit. -/
def isFull (d : Disk) (path line : String) (maxBytes : Int) : Bool :=
  0 < maxBytes && (d.isFile path || !d.isThere path) && maxBytes ≤ sizeOf d path + line.length

/-- Adds a line; without old files to keep, the file just grows. -/
def append (path line : String) (maxBytes backups : Int) : DiskAct Unit := do
  if isFull (← get) path line maxBytes then
    if 0 < backups then turnOver path backups.toNat
  Disk.appendFile path line.toUTF8

/-- Opens a log file, creating it with its folders. -/
def openAt (path : String) : DiskAct String := do
  let target := (← get).absolute path
  let above := Path.folder target
  if !(← get).isThere above then Disk.makeFolders above
  Disk.appendFile target .empty
  return target

end DocNavigation.LogFile
