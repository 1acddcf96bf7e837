import DocNavigation.Disk.Write
import DocNavigation.Fault
import DocNavigation.Note
import DocNavigation.Path.Expand
import DocNavigation.Web.Basic

/-!
The machine that operations run on: its disk, its environment, the network and the journal. An
operation that fails keeps what it did before.
-/

namespace DocNavigation

structure Host where
  disk : Disk
  vars : List (String × String) := []
  homes : List (String × String) := []
  web : Web := {}
  requests : List Request := []
  journal : List Note := []
deriving DecidableEq

abbrev Act := ExceptT Fault (StateM Host)

namespace Host

def workdir (h : Host) : String :=
  Disk.textOf h.disk.workdir

def environment (h : Host) : Environment :=
  ⟨h.workdir, h.vars, h.homes⟩

end Host

namespace Act

def note (n : Note) : Act Unit :=
  modify fun h => { h with journal := h.journal ++ [n] }

def notes (ns : List Note) : Act Unit :=
  modify fun h => { h with journal := h.journal ++ ns }

def disk : Act Disk :=
  return (← get).disk

def lift (r : Except Fault α) : Act α :=
  match r with
  | .ok a => pure a
  | .error e => throw e

/-- Runs an operation and gives its fault as a result. -/
def attempt (a : Act α) : Act (Except Fault α) :=
  try return .ok (← a)
  catch e => return .error e

/-- Looks at the disk. -/
def look (f : Disk → Except Fault α) : Act α := do
  lift (f (← disk))

/-- Changes the disk. -/
def change (a : DiskAct α) : Act α := do
  let (r, d) := a.run (← disk)
  modify fun h => { h with disk := d }
  lift (r.mapError .disk)

end Act

end DocNavigation
