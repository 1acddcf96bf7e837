import DocNavigation.Component
import DocNavigation.Note

/-!
Registries of units. A name is registered once; registering closes the unit, and a frozen registry
takes no more.
-/

namespace DocNavigation

structure Registry where
  units : List Component := []
  frozen : Bool := false
deriving DecidableEq, Repr

inductive RegistryError where
  | name (e : NameError)
  | frozen
  | duplicate (name : String)
  | notFound (name : String)
deriving DecidableEq, Repr

namespace Registry

def names (r : Registry) : List String :=
  r.units.map (·.name)

def size (r : Registry) : Nat :=
  r.units.length

def contains (r : Registry) (name : String) : Bool :=
  r.units.any (·.name = name)

def get? (r : Registry) (name : String) : Option Component :=
  r.units.find? (·.name = name)

def get (r : Registry) (name : String) : Except RegistryError Component :=
  match r.get? name with
  | some u => .ok u
  | none => .error (.notFound name)

/-- The name is checked before the state of the registry. -/
def add (r : Registry) (u : Component) : Except RegistryError Registry :=
  match Name.check "unit" (.str u.name) with
  | .error e => .error (.name e)
  | .ok _ =>
    if r.frozen then .error .frozen
    else if r.contains u.name then .error (.duplicate u.name)
    else .ok { r with units := r.units ++ [u.close] }

/-- Registers a tree and a catalog under a value that is to be a name. -/
def register (r : Registry) (name : Json) (tree : Tree) (catalog : Catalog) :
    Except RegistryError (Registry × Component) :=
  match name with
  | .str n => (r.add ⟨n, tree, catalog⟩).map fun r => (r, Component.close ⟨n, tree, catalog⟩)
  | v => .error (.name (.invalid "unit" v))

def freeze (r : Registry) : Registry :=
  { r with frozen := true }

def ofUnits (units : List Component) : Except RegistryError Registry :=
  units.foldlM add {}

/-- What registering a unit leaves in the notes. -/
def registered (u : Component) : Note :=
  .debug s!"Registry: Unit '{u.name}' registered ({u.tree.fileCount} files)."

def shown (r : Registry) : String :=
  let state := if r.frozen then "frozen" else "open"
  s!"UnitRegistry({r.size} units, {state})"

end Registry

def RegistryError.message : RegistryError → String
  | .name e => e.message
  | .frozen => "Registry is frozen; no further units can be registered."
  | .duplicate unit => s!"Unit '{unit}' is already registered."
  | .notFound unit => s!"Unit '{unit}' not found."

end DocNavigation
