import DocNavigation.Malformed

/-!
Catalogs as JSON objects from categories to rows of a name and a summary. Reading ignores what
follows the two texts of a row.
-/

namespace DocNavigation.Catalog

def itemRow (i : CatalogItem) : Json :=
  .strings [i.name, i.summary]

def toFields (c : Catalog) : List (String × Json) :=
  c.groups.map fun (category, items) => (category, .arr (items.map itemRow))

def toJson (c : Catalog) : Json :=
  .obj c.toFields

def addRow (c : Catalog) (category : String) (row : Json) : Except Defect Catalog :=
  match row with
  | .arr (.str name :: .str summary :: _) => (c.add category name summary).mapError .entry
  | _ => .error (.row category row)

def addRows (c : Catalog) (category : String) (rows : Json) : Except Defect Catalog :=
  match rows with
  | .arr rows => rows.foldlM (fun c row => c.addRow category row) c
  | _ => .error (.rowsNotList category)

def ofFields (fields : List (String × Json)) : Except Defect Catalog :=
  fields.foldlM (fun c (category, rows) => c.addRows category rows) {}

def ofJson (v : Json) : Except Defect Catalog :=
  match v with
  | .obj fields => ofFields fields
  | v => .error (.catalogNotObject v.kind)

end DocNavigation.Catalog
