import DocNavigation.Catalog.Basic
import DocNavigation.Json.Read
import DocNavigation.Name
import DocNavigation.Text.Utf8

/-!
What can be wrong with an artifact, a script or a sidecar, and where.
-/

namespace DocNavigation

inductive Defect where
  | treeNotObject (kind : String)
  | treeFields
  | name (e : NameError)
  | repeatedInNode (entry node : String)
  | catalogNotObject (kind : String)
  | rowsNotList (category : String)
  | row (category : String) (row : Json)
  | entry (e : CatalogError)
  | unitNotObject (kind : String)
  | unitName
  | unitParts (name : String)
  | empty
  | announced (units records : Nat)
  | syntaxError (e : Json.ReadError)
  | encoding (f : Text.Utf8.Fault)
  | headerNotObject
  | unknownFormat (format : Json)
  | version (version : Json)
  | unitList
  | recordName (found expected : String)
  | repeatedUnit (name : String)
  | listedTwice (name : String)
  | missingRecord (name : String)
  | extraRecords
  | statement
  | definedTwice (name : String)
  | sidebarCall
  | sidecar (unit reason : String)
deriving DecidableEq, Repr

structure Malformed where
  defect : Defect
  source : Option String := none
  line : Option Nat := none
deriving DecidableEq, Repr

def Defect.message : Defect → String
  | .treeNotObject kind => s!"Tree node must be an object, got {kind}."
  | .treeFields => "Tree node fields have unexpected types."
  | .name e => e.message
  | .repeatedInNode item node => s!"Duplicate name '{item}' in tree node '{node}'."
  | .catalogNotObject kind => s!"Catalog must be an object, got {kind}."
  | .rowsNotList group => s!"Entries of category '{group}' must be a list."
  | .row group value => s!"Malformed entry in category '{group}': {value.shown}."
  | .entry e => e.message
  | .unitNotObject kind => s!"Unit record must be an object, got {kind}."
  | .unitName => "Unit record is missing a valid 'name'."
  | .unitParts unit => s!"Unit '{unit}' is missing 'tree' or 'catalog'."
  | .empty => "Artifact is empty."
  | .announced units records => s!"Header announces {units} units but {records} records follow."
  | .syntaxError e => s!"Invalid JSON: {e.message}"
  | .encoding f => s!"Invalid JSON: {f.message}"
  | .headerNotObject => "Header must be an object."
  | .unknownFormat format => s!"Unknown artifact format: {format.shown}."
  | .version value => s!"Invalid artifact version: {value.shown}."
  | .unitList => "Header 'units' must be a list of names."
  | .recordName found expected => s!"Record '{found}' does not match header entry '{expected}'."
  | .repeatedUnit unit => s!"Unit '{unit}' is already registered."
  | .listedTwice unit => s!"Unit '{unit}' listed twice in header."
  | .missingRecord unit => s!"Record for unit '{unit}' is missing."
  | .extraRecords => "More records than announced in header."
  | .statement => "Unrecognized statement in source index."
  | .definedTwice unit => s!"Unit '{unit}' defined twice."
  | .sidebarCall => "Expected an initSidebarItems(...) call."
  | .sidecar unit reason => s!"Catalog sidecar of '{unit}' is invalid: {reason}"

/-- An empty source is not worth showing. -/
def Malformed.location (m : Malformed) : String :=
  match m.source.filter (· ≠ ""), m.line with
  | some s, some n => s!" [{s}:{n}]"
  | some s, none => s!" [{s}]"
  | none, some n => s!" [line {n}]"
  | none, none => ""

def Malformed.message (m : Malformed) : String :=
  m.defect.message ++ m.location

end DocNavigation
