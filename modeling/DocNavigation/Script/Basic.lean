import DocNavigation.Artifact.Encode

/-!
The scripts that show units to a browser. One lists the source trees of all units: a preamble, one
assignment for each unit, and a trailer. The other holds one unit's catalog: a single call with an
object of rows, in which three categories go by short keys.
-/

namespace DocNavigation.Script

def fileName : String := "source-files.js"
def preamble : String := "var N = null;var sourcesIndex = \x7b\x7d;"
def trailer : String := "createSourceSidebar();"

def assignment (u : Component) : String :=
  "sourcesIndex[" ++ Json.quotedString u.name ++ "] = " ++ u.tree.toJson.write Json.compact ++ ";"

def render (r : Registry) : String :=
  "\n".intercalate (preamble :: r.units.map assignment ++ [trailer]) ++ "\n"

/-- The length of a string literal, its closing quote included, after the opening quote. -/
def literalLength? : List Char → (escaped : Bool) → Option Nat
  | [], _ => none
  | _ :: rest, true => (literalLength? rest false).map (· + 1)
  | c :: rest, false =>
    if c = '"' then some 1 else (literalLength? rest (c = '\\')).map (· + 1)

def dropPrefix? (pre cs : List Char) : Option (List Char) :=
  if pre.isPrefixOf cs then some (cs.drop pre.length) else none

/-- The key and the tree of an assignment. The tree reaches to the brace before the semicolon that
ends the line. -/
def assignmentParts? (line : List Char) : Option (List Char × List Char) := do
  let rest ← dropPrefix? "sourcesIndex[\"".toList line
  let size ← literalLength? rest false
  let key := '"' :: rest.take size
  let rest ← dropPrefix? [']'] (rest.drop size)
  let rest ← dropPrefix? ['='] (Text.trimLeft rest)
  let tree := Text.trimLeft rest
  let body ← if tree.getLast? = some ';' then some tree.dropLast else none
  if 2 ≤ body.length ∧ body.head? = some '\x7b' ∧ body.getLast? = some '\x7d' then
    some (key, body)
  else none

def readText (cs : List Char) : Except Defect Json :=
  match Json.read (String.ofList cs) with
  | .ok v => .ok v
  | .error e => .error (.syntaxError e)

def readAssignment (trees : List (String × Tree)) (line : List Char) :
    Except Defect (String × Tree) :=
  match assignmentParts? line with
  | none => .error .statement
  | some (key, tree) => do
    let name ← readText key
    let value ← readText tree
    let name ← (Name.check "unit" name).mapError .name
    if trees.any (·.1 = name) then throw (.definedTwice name)
    return (name, ← Tree.ofJson value)

def parseLines (source : Option String) : List (List Char) → (number : Nat) →
    (trees : List (String × Tree)) → Except Malformed (List (String × Tree))
  | [], _, trees => .ok trees
  | raw :: lines, number, trees =>
    let line := Text.trimRight (Text.trimLeft raw)
    if line.isEmpty || line = preamble.toList || line = trailer.toList then
      parseLines source lines (number + 1) trees
    else match readAssignment trees line with
      | .error e => .error ⟨e, source, some number⟩
      | .ok t => parseLines source lines (number + 1) (trees ++ [t])

/-- The trees by unit name, in the order of the script. -/
def parse (text : String) (source : Option String) : Except Malformed (List (String × Tree)) :=
  parseLines source (Text.pieces '\n' text.toList) 1 []

end DocNavigation.Script

namespace DocNavigation.Sidebar

def fileName : String := "sidebar-items.js"

def shortKeys : List (String × String) :=
  [("module", "mod"), ("function", "fn"), ("attribute", "attr")]

def keyOf (category : String) : String :=
  (Json.getKey? shortKeys category).getD category

def categoryOf (key : String) : String :=
  ((shortKeys.find? (·.2 = key)).map (·.1)).getD key

def render (c : Catalog) : String :=
  let items := c.toFields.map fun (category, rows) => (keyOf category, rows)
  "initSidebarItems(" ++ (Json.obj (Json.putAll [] items)).write Json.compact ++ ");"

/-- The argument of the call, from its first brace to its last. -/
def argument? (text : List Char) : Option (List Char) := do
  let rest ← Script.dropPrefix? "initSidebarItems(".toList (Text.trimLeft text)
  let rest := Text.trimRight rest
  let rest := if rest.getLast? = some ';' then rest.dropLast else rest
  let body ← if rest.getLast? = some ')' then some rest.dropLast else none
  if 2 ≤ body.length ∧ body.head? = some '\x7b' ∧ body.getLast? = some '\x7d' then some body
  else none

def parseItems (text : String) : Except Defect Catalog :=
  match argument? text.toList with
  | none => .error .sidebarCall
  | some body =>
    match Script.readText body with
    | .error e => .error e
    | .ok (.obj fields) =>
      Catalog.ofFields (Json.putAll [] (fields.map fun (key, rows) => (categoryOf key, rows)))
    | .ok _ => .error .sidebarCall

def parse (text : String) (source : Option String) : Except Malformed Catalog :=
  (parseItems text).mapError fun e => ⟨e, source, none⟩

end DocNavigation.Sidebar
