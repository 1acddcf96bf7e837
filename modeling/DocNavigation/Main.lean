import DocNavigation.CommandLine.Run

/-!
The program. It looks at the disk, runs the command line on what it saw, and writes what changed.
-/

namespace DocNavigation.Program

def placeOf (path : String) : Place :=
  (Text.split '/' path).filter (· ≠ "")

/-- What is at a place and below it. What cannot be looked at is left out. -/
partial def entriesAt (p : Place) : IO (List (Place × DiskEntry)) := do
  let path := (← IO.currentDir) / Disk.textOf p
  try
    match (← path.symlinkMetadata).type with
    | .dir =>
      let below ← (← path.readDir).toList.mapM fun e => entriesAt (p ++ [e.fileName])
      return (p, .folder) :: below.flatten
    | .file => return [(p, .file (← IO.FS.readBinFile path))]
    | .symlink => return [(p, .link (← IO.FS.realPath path).toString)]
    | .other => return []
  catch _ => return []

def add (d : Disk) (entries : List (Place × DiskEntry)) : Disk :=
  match entries with
  | [] => d
  | (p, e) :: below => { d.plant p e with entries := (d.plant p e).entries ++ below }

/-- The places that a command line can be about: the working folder, the folder of a person's
settings, and the absolute paths among the words. -/
def places (env : Environment) (words : List String) : List Place :=
  let values := words.map fun w => ((CommandLine.cutEquals w).2).getD w
  let named := (Settings.userFolderPath env false :: values).filter Path.isRooted
  let below := (named.map fun path => placeOf (Path.normal path)).filter (· ≠ [])
  let found := placeOf env.workdir :: below
  (found.filter fun p => !found.any fun q => q ≠ p && q.isPrefixOf p).eraseDups

def linesOf (path : String) (sep : Char) : IO (List String) := do
  try
    let bytes ← IO.FS.readBinFile ((← IO.currentDir) / path)
    return Text.split sep (String.ofList (Text.Utf8.decodeLenient bytes))
  catch _ => return []

def vars : IO (List (String × String)) := do
  let given ← linesOf "/proc/self/environ" '\x00'
  let home := ((← IO.getEnv "HOME").map fun value => ("HOME", value)).toList
  return home ++ given.filterMap fun line =>
    match CommandLine.cutEquals line with
    | (name, some value) => some (name, value)
    | _ => none

def homes : IO (List (String × String)) := do
  return (← linesOf "/etc/passwd" '\n').filterMap fun line =>
    match Text.split ':' line with
    | account :: fields => (fields[4]?).map fun home => (account, home)
    | [] => none

def environment : IO Environment := do
  return ⟨(← IO.currentDir).toString, ← vars, ← homes⟩

def hostFor (words : List String) : IO Host := do
  let env ← environment
  let found ← (places env words).mapM entriesAt
  return {
    disk := found.foldl add { workdir := placeOf env.workdir }
    vars := env.vars
    homes := env.homes }

/-- A new file tells the time. -/
def now : IO Moment := do
  let (_, path) ← IO.FS.createTempFile
  let time := (← path.metadata).modified
  IO.FS.removeFile path
  return .ofSeconds time.sec.toNat (time.nsec.toNat / 1000000)

def writeEntry (p : Place) (e : DiskEntry) : IO Unit := do
  let path := (← IO.currentDir) / Disk.textOf p
  match e with
  | .folder => IO.FS.createDirAll path
  | .file bytes =>
    IO.FS.createDirAll ((← IO.currentDir) / Disk.textOf p.dropLast)
    IO.FS.writeBinFile path bytes
  | .link _ => pure ()

/-- Writes what is new or different, and removes the files that are gone. -/
def writeChanges (before after : Disk) : IO Unit := do
  for (p, e) in after.entries do
    if before.at? p ≠ some e then writeEntry p e
  for (p, e) in before.entries do
    if e ≠ .folder ∧ (after.at? p).isNone then
      IO.FS.removeFile ((← IO.currentDir) / Disk.textOf p)

def run (words : List String) : IO UInt32 := do
  let host ← hostFor words
  let moment ← now
  let (code, s) := (CommandLine.execute words false).run { host := host, moment := moment }
  writeChanges host.disk s.host.disk
  (← IO.getStdout).putStr s.output
  (← IO.getStderr).putStr (s.console ++ s.errors)
  return match code with
    | .ok c => c.number.toUInt32
    | .error _ => 1

end DocNavigation.Program

def main (args : List String) : IO UInt32 :=
  DocNavigation.Program.run args
