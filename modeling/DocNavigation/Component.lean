import DocNavigation.Catalog.Json
import DocNavigation.Tree.Json

/-!
Units: the source tree and the catalog of one named component, treated as a whole, and the text that
shows them: trees drawn with connectors, directories before files, and catalogs grouped by category,
long summaries cut short.
-/

namespace DocNavigation.Catalog

/-- Keeps `width` characters, counting the dots. A width below three cuts from the end instead. -/
def shortened (width : Int) (summary : String) : String :=
  let cs := summary.toList
  if (cs.length : Int) ≤ width then summary
  else
    let kept := if 3 ≤ width then cs.take (width - 3).toNat
      else cs.take (cs.length - (3 - width).toNat)
    String.ofList (kept ++ ['.', '.', '.'])

def itemLine (width : Int) (i : CatalogItem) : String :=
  let summary := shortened width i.summary
  "  " ++ i.name ++ (if summary = "" then "" else " - " ++ summary)

def render (c : Catalog) (width : Int) : List String :=
  c.groups.flatMap fun (category, items) =>
    s!"[{category}] ({items.length})" :: items.map (itemLine width)

def defaultWidth : Int := 100

end DocNavigation.Catalog

namespace DocNavigation.Tree

def connector (last : Bool) : String :=
  if last then "└── " else "├── "

def indent (last : Bool) : String :=
  if last then "    " else "│   "

def fileLines (margin : String) : List String → List String
  | [] => []
  | f :: fs => (margin ++ connector fs.isEmpty ++ f) :: fileLines margin fs

mutual

def drawn (margin : String) : Tree → List String
  | .node _ _ ds fs => drawnAll margin ds fs

/-- A directory is the last entry when neither a directory nor a file follows. -/
def drawnAll (margin : String) : List Tree → List String → List String
  | [], fs => fileLines margin fs
  | t :: ts, fs =>
    let last := ts.isEmpty && fs.isEmpty
    (margin ++ connector last ++ t.name ++ "/") :: drawn (margin ++ indent last) t
      ++ drawnAll margin ts fs

end

def render (t : Tree) (label : Option String) : List String :=
  label.toList ++ t.drawn ""

end DocNavigation.Tree

namespace DocNavigation

structure Component where
  name : String
  tree : Tree
  catalog : Catalog
deriving DecidableEq, Repr

namespace Component

def close (u : Component) : Component :=
  { u with tree := u.tree.close, catalog := u.catalog.close }

def isSealed (u : Component) : Bool :=
  u.tree.isSealed && u.catalog.isSealed

/-- The same name, tree and catalog, seals aside. -/
def same (u v : Component) : Bool :=
  u.name = v.name && u.tree.same v.tree && u.catalog.same v.catalog

def toJson (u : Component) : Json :=
  .obj [("name", .str u.name), ("tree", u.tree.toJson), ("catalog", u.catalog.toJson)]

def ofFields (fields : List (String × Json)) : Except Defect Component :=
  match Json.getKey? fields "name" with
  | some (.str "") => .error .unitName
  | some (.str name) =>
    match Name.check "unit" (.str name) with
    | .error e => .error (.name e)
    | .ok _ =>
      match Json.getKey? fields "tree", Json.getKey? fields "catalog" with
      | some tree, some catalog =>
        match Tree.ofJson tree with
        | .error e => .error e
        | .ok tree => (Catalog.ofJson catalog).map fun catalog => ⟨name, tree, catalog⟩
      | _, _ => .error (.unitParts name)
  | _ => .error .unitName

def ofJson (v : Json) : Except Defect Component :=
  match v with
  | .obj fields => ofFields fields
  | v => .error (.unitNotObject v.kind)

/-- The tree under the unit's name, then the catalog if it is wanted and not empty. -/
def render (u : Component) (withCatalog : Bool) : List String :=
  u.tree.render (some u.name)
    ++ (if withCatalog && u.catalog.size ≠ 0 then "" :: u.catalog.render Catalog.defaultWidth
        else [])

def shown (u : Component) : String :=
  s!"Unit(name={Text.quoted u.name}, tree={u.tree.shown}, catalog={u.catalog.shown})"

end Component

end DocNavigation
