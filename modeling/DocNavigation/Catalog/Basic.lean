import DocNavigation.Json.Shown
import DocNavigation.Number.Power

/-!
Catalogs of described items. Categories come in the order in which they were first used, the items
of a category in the order of their addition, and names are distinct within a category.
-/

namespace DocNavigation

structure CatalogEntry where
  category : String
  name : String
  summary : String
deriving DecidableEq, Repr

/-- A named item of one category. -/
structure CatalogItem where
  name : String
  summary : String
deriving DecidableEq, Repr

structure Catalog where
  groups : List (String × List CatalogItem) := []
  isSealed : Bool := false
deriving DecidableEq, Repr

inductive CatalogError where
  | isSealed
  | category (value : Json)
  | name (value : Json)
  | summary (name : String)
  | duplicate (category name : String)
  | notFound (category name : String)
deriving DecidableEq, Repr

namespace Catalog

/-- The items of a category, none for one that was never used. -/
def items (c : Catalog) (category : String) : List CatalogItem :=
  (Json.getKey? c.groups category).getD []

def entriesOf (c : Catalog) (category : String) : List CatalogEntry :=
  (c.items category).map fun i => ⟨category, i.name, i.summary⟩

def categories (c : Catalog) : List String :=
  c.groups.map (·.1)

def entries (c : Catalog) : List CatalogEntry :=
  c.groups.flatMap fun (category, items) => items.map fun i => ⟨category, i.name, i.summary⟩

def size (c : Catalog) : Nat :=
  Number.total (c.groups.map fun g => g.2.length)

def item? (c : Catalog) (category name : String) : Option CatalogItem :=
  (c.items category).find? (·.name = name)

def contains (c : Catalog) (category name : String) : Bool :=
  (c.item? category name).isSome

def get (c : Catalog) (category name : String) : Except CatalogError CatalogEntry :=
  match c.item? category name with
  | some i => .ok ⟨category, i.name, i.summary⟩
  | none => .error (.notFound category name)

/-- Puts an item at the end of its category, which comes last if it is new. -/
def append (groups : List (String × List CatalogItem)) (category : String) (item : CatalogItem) :
    List (String × List CatalogItem) :=
  match groups with
  | [] => [(category, [item])]
  | (k, items) :: rest =>
    if k = category then (k, items ++ [item]) :: rest else (k, items) :: append rest category item

def add (c : Catalog) (category name summary : String) : Except CatalogError Catalog :=
  if c.isSealed then .error .isSealed
  else if category = "" then .error (.category (.str category))
  else if name = "" then .error (.name (.str name))
  else if c.contains category name then .error (.duplicate category name)
  else .ok { c with groups := append c.groups category ⟨name, summary⟩ }

/-- Adds values of any kind: the seal is looked at first, then category, name and summary. -/
def addValues (c : Catalog) (category name summary : Json) :
    Except CatalogError (Catalog × CatalogEntry) :=
  if c.isSealed then .error .isSealed
  else match category with
    | .str "" => .error (.category category)
    | .str cat =>
      match name with
      | .str "" => .error (.name name)
      | .str n =>
        match summary with
        | .str s => (c.add cat n s).map fun c => (c, ⟨cat, n, s⟩)
        | _ => .error (.summary n)
      | _ => .error (.name name)
    | _ => .error (.category category)

def close (c : Catalog) : Catalog :=
  { c with isSealed := true }

/-- An open copy. -/
def copy (c : Catalog) : Catalog :=
  { c with isSealed := false }

/-- The same entries in the same order; seals do not matter. -/
def same (c d : Catalog) : Bool :=
  c.groups = d.groups

def shown (c : Catalog) : String :=
  let counts := c.groups.map fun (category, items) => s!"{category}={items.length}"
  "Catalog(" ++ ", ".intercalate counts ++ ")"

end Catalog

def CatalogError.message : CatalogError → String
  | .isSealed => "Catalog is sealed and can no longer be modified."
  | .category value => s!"Invalid catalog category: {value.shown}."
  | .name value => s!"Invalid catalog entry name: {value.shown}."
  | .summary item => s!"Summary for '{item}' must be a string."
  | .duplicate group item => s!"Duplicate entry '{item}' in category '{group}'."
  | .notFound group item => s!"Catalog entry '{group}:{item}' not found."

end DocNavigation
