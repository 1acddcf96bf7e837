import DocNavigation.Build.Plan
import DocNavigation.Collect
import DocNavigation.Disk.Text
import DocNavigation.Host
import DocNavigation.Script.Basic

/-!
Building the unit of one source root: the tree of its sources and the catalog kept beside them, which
is an object of rows if there is one, else a script, else nothing.
-/

namespace DocNavigation.Sidecar

def fileName : String := "navindex-catalog.json"

/-- A defect of the text has the path with it, one of the rows has not. -/
def readRows (d : Disk) (path : String) : Except Fault Catalog :=
  let malformed := fun defect => Except.error (Fault.malformed ⟨defect, some path, none⟩)
  match d.readText path with
  | .error (.decoding f) => malformed (.encoding f)
  | .error e => .error e
  | .ok text =>
    match Json.read text with
    | .error e => malformed (.syntaxError e)
    | .ok v => (Catalog.ofJson v).mapError fun e => .malformed ⟨e, none, none⟩

def readScript (d : Disk) (path : String) : Except Fault Catalog :=
  match d.readText path with
  | .error e => .error e
  | .ok text => (Sidebar.parse text (some path)).mapError .malformed

def load (d : Disk) (root : String) : Except Fault Catalog :=
  let rows := Path.join root fileName
  let script := Path.join root Sidebar.fileName
  if d.isFile rows then readRows d rows
  else if d.isFile script then readScript d script
  else .ok {}

end DocNavigation.Sidecar

namespace DocNavigation

def scanTree (o : ScanOptions) (path : String) : Act Tree := do
  let d ← Act.disk
  let root := d.absolute path
  Act.notes (if d.isFolder root then [.debug s!"Scanning source tree: {root}"] else [])
  let t ← Act.lift (Scan.tree d o path)
  Act.note (.debug s!"Source tree for {root}: {t.fileCount} files.")
  return t

namespace ScanTask

/-- Catalogs are kept beside the sources and are not part of them. -/
def sidecarPatterns : List String :=
  ["^navindex-catalog\\.json$", "^sidebar-items\\.js$"]

def options (o : ScanOptions) : ScanOptions :=
  { o with excluded := some (o.excluded.getD Settings.usualExcluded ++ sidecarPatterns) }

def catalog (d : Disk) (unit root : String) : Except Fault Catalog :=
  match Sidecar.load d root with
  | .error (.malformed m) => .error (.malformed ⟨.sidecar unit m.message, none, none⟩)
  | r => r

def run (o : ScanOptions) (unit root : String) : Act Component := do
  let t ← scanTree (options o) root
  let c ← Act.look (catalog · unit root)
  return ⟨unit, t, c⟩

/-- What the task comes to for those who collect. -/
def deliver (o : ScanOptions) (unit root : String) (index : Nat) : Act Delivery := do
  let label := Collection.label index (some (.str unit))
  match ← Act.attempt (run o unit root) with
  | .ok u => return ⟨label, .unit u⟩
  | .error e => return ⟨label, .failed e.message⟩

end ScanTask

end DocNavigation
