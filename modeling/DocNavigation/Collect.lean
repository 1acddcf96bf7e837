import DocNavigation.Json.Shown
import DocNavigation.Registry

/-!
Collecting units from tasks. Tasks are handed out, complete in some order and are taken back; their
units are registered one by one, and a task that fails or comes second with a name is reported
without stopping the others. A wish to stop is looked for before each task is handed out and before
each is taken back.
-/

namespace DocNavigation

/-- What a task came to. The name in a triple can be anything. -/
inductive Outcome where
  | unit (u : Component)
  | triple (name : Json) (tree : Tree) (catalog : Catalog)
  | unsupported (kind : String)
  | failed (message : String)
deriving DecidableEq, Repr

structure Delivery where
  label : String
  outcome : Outcome
deriving DecidableEq, Repr

structure CollectionFailure where
  task : String
  error : String
  duplicate : Bool
deriving DecidableEq, Repr

structure Collection where
  registry : Registry
  registered : List String := []
  failures : List CollectionFailure := []
  cancelled : Bool := false
  notes : List Note := []
deriving DecidableEq, Repr

namespace Outcome

def parts : Outcome → Except String (Json × Tree × Catalog)
  | .unit u => .ok (.str u.name, u.tree, u.catalog)
  | .triple name tree catalog => .ok (name, tree, catalog)
  | .unsupported kind => .error s!"Extraction task returned an unsupported payload: {kind}."
  | .failed message => .error message

end Outcome

namespace Collection

/-- A task goes by its own label, or by its number. -/
def label (index : Nat) (own : Option Json) : String :=
  match own.filter Json.isGiven with
  | some v => v.plain
  | none => s!"task-{index}"

def fail (c : Collection) (f : CollectionFailure) (n : Note) : Collection :=
  { c with failures := c.failures ++ [f], notes := c.notes ++ [n] }

def add (c : Collection) (task : String) (name : Json) (tree : Tree) (catalog : Catalog) :
    Collection :=
  match c.registry.register name tree catalog with
  | .ok (r, u) =>
    { c with
      registry := r
      registered := c.registered ++ [u.name]
      notes := c.notes ++ [Registry.registered u] }
  | .error (.duplicate n) =>
    let e := RegistryError.message (.duplicate n)
    c.fail ⟨task, e, true⟩ (.warning s!"Collector: {e}")
  | .error e =>
    c.fail ⟨task, e.message, false⟩ (.error s!"Collector: Unit '{name.plain}' rejected: {e.message}")

def take (c : Collection) (d : Delivery) : Collection :=
  match d.outcome.parts with
  | .ok (name, tree, catalog) => c.add d.label name tree catalog
  | .error e =>
    c.fail ⟨d.label, e, false⟩ (.error s!"Collector: Extraction task '{d.label}' failed: {e}")

/-- The tasks that are handed out, and whether the wish to stop was seen. -/
def handOut (isSet : Nat → Bool) : Nat → List Delivery → List Delivery × Bool
  | _, [] => ([], false)
  | look, d :: rest =>
    if isSet look then ([], true)
    else
      let (handed, stopped) := handOut isSet (look + 1) rest
      (d :: handed, stopped)

def takeBack (isSet : Nat → Bool) : Nat → List Delivery → Collection → Collection
  | _, [], c => c
  | look, d :: rest, c =>
    if isSet look then { c with cancelled := true }
    else takeBack isSet (look + 1) rest (c.take d)

def ok (c : Collection) : Bool :=
  c.failures.isEmpty && !c.cancelled

def closing (c : Collection) : Note :=
  .info s!"Collector: {c.registered.length} units registered, {c.failures.length} failures."

end Collection

/-- `isSet` tells of each look whether the wish to stop is seen; `finishing` is the order in which
the tasks that were handed out complete. -/
def collect (target : Registry) (tasks : List Delivery) (isSet : Nat → Bool)
    (finishing : List Delivery → List Delivery) (freeze : Bool) : Collection :=
  let (handed, stopped) := Collection.handOut isSet 0 tasks
  let looks := handed.length + stopped.toNat
  let c := Collection.takeBack isSet looks (finishing handed)
    { registry := target, cancelled := stopped }
  { c with
    registry := if freeze then c.registry.freeze else c.registry
    notes := c.notes ++ [c.closing] }

end DocNavigation
