import DocNavigation.Disk.Text
import DocNavigation.Host
import DocNavigation.Json.Read
import DocNavigation.Json.Write

/-!
Settings kept in a file. Reading puts what the file holds over the usual settings and never fails;
the version that writing adds is left out again.
-/

namespace DocNavigation.Settings

def fileName : String := "config.json"

def fileVersion : String := "1.0.0"

/-- The folder of a person's data, by the conventions of the system. -/
def userFolderPath (env : Environment) (windows : Bool) : String :=
  let base :=
    if windows then
      match env.get? "LOCALAPPDATA", env.get? "APPDATA" with
      | some a, b => if a ≠ "" then a else b.getD ""
      | none, b => b.getD ""
    else ""
  if base ≠ "" then Path.join base "NavIndex"
  else Path.join (Path.expandHome env "~") ".navindex"

/-- The folder is created if that is possible. -/
def userFolder (windows : Bool) : Act String := do
  let h : Host ← get
  let path := userFolderPath h.environment windows
  match ← Act.attempt (Act.change (Disk.makeFolders path)) with
  | .ok () => pure ()
  | .error e => if !e.isRefusal then throw e
  return h.disk.absolute path

/-- Where settings are kept when no path is given. -/
def usualPath : Act String :=
  return Path.join (← userFolder false) fileName

def pathOr (path : Option String) : Act String :=
  match path.filter (· ≠ "") with
  | some p => pure p
  | none => usualPath

/-- The value in a file, or a description of the failure. -/
def readValue (d : Disk) (path : String) : Except String Json :=
  match d.readText path with
  | .error e => .error e.message
  | .ok text => (Json.read text).mapError (·.message)

def load (path : Option String) : Act (List (String × Json)) := do
  let h : Host ← get
  let usual := (usual h.workdir).toFields
  let path ← pathOr path
  let d ← Act.disk
  if !d.isThere path then
    Act.note (.debug s!"Config file not found at {path}. Using defaults.")
    return usual
  match readValue d path with
  | .error e =>
    Act.note (.error s!"Failed to load config from {path}: {e}. Using defaults.")
    return usual
  | .ok (.obj fields) => return Json.putAll usual (fields.filter (·.1 ≠ "version"))
  | .ok _ =>
    Act.note (.warning "Corrupted config file. Resetting to defaults.")
    return usual

def fileText (config : List (String × Json)) : String :=
  (Json.obj (Json.put config "version" (.str fileVersion))).writeIndented 4 0

def write (path text : String) : DiskAct Unit := do
  Disk.makeFolders (Path.folder ((← get).absolute path))
  Disk.writeFile path text.toUTF8

/-- Tells whether the file was written. -/
def save (config : List (String × Json)) (path : Option String) : Act Bool := do
  let path ← pathOr path
  match ← Act.attempt (Act.change (write path (fileText config))) with
  | .ok () =>
    Act.note (.debug s!"Configuration saved to {path}")
    return true
  | .error e =>
    if !e.isRefusal then throw e
    Act.note (.error s!"Failed to save configuration: {e.message}")
    return false

end DocNavigation.Settings
