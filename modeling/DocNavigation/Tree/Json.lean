import DocNavigation.Malformed
import DocNavigation.Tree.Basic

/-!
Trees as JSON objects with a name, directories and files. Reading ignores other keys, checks every
name but the root's, and refuses a name that occurs twice in a node.
-/

namespace DocNavigation.Tree

mutual

def toJson : Tree → Json
  | .node n _ ds fs =>
    .obj [("name", .str n), ("dirs", .arr (toJsonAll ds)), ("files", .strings fs)]

def toJsonAll : List Tree → List Json
  | [] => []
  | t :: ts => toJson t :: toJsonAll ts

end

def checkFiles (node : String) : List Json → (taken : List String) → Except Defect (List String)
  | [], _ => .ok []
  | v :: vs, taken =>
    match Name.check "tree" v with
    | .error e => .error (.name e)
    | .ok f =>
      if taken.contains f then .error (.repeatedInNode f node)
      else (checkFiles node vs (f :: taken)).map (f :: ·)

/-- The fields of a node, absent ones empty. -/
def nodeFields (v : Json) : Except Defect (String × List Json × List Json) :=
  match v with
  | .obj fields =>
    let field := fun key (default : Json) => (Json.getKey? fields key).getD default
    match field "name" (.str ""), field "dirs" (.arr []), field "files" (.arr []) with
    | .str name, .arr dirs, .arr files => .ok (name, dirs, files)
    | _, _, _ => .error .treeFields
  | v => .error (.treeNotObject v.kind)

def checkNodeName (root : Bool) (name : String) : Except Defect Unit :=
  if root then .ok ()
  else match Name.check "tree" (.str name) with
    | .ok _ => .ok ()
    | .error e => .error (.name e)

/-- Reads the directories of a node with a given reader for each. -/
def checkDirs (read : Json → Except Defect Tree) (node : String) :
    List Json → (taken : List String) → Except Defect (List Tree)
  | [], _ => .ok []
  | v :: vs, taken =>
    match read v with
    | .error e => .error e
    | .ok t =>
      if taken.contains t.name then .error (.repeatedInNode t.name node)
      else (checkDirs read node vs (t.name :: taken)).map (t :: ·)

/-- Directories are read before files; the fuel bounds the depth. -/
def ofJsonBelow : (fuel : Nat) → (root : Bool) → Json → Except Defect Tree
  | 0, _, v => .error (.treeNotObject v.kind)
  | fuel + 1, root, v =>
    match nodeFields v with
    | .error e => .error e
    | .ok (name, dirs, files) =>
      match checkNodeName root name with
      | .error e => .error e
      | .ok () =>
        match checkDirs (ofJsonBelow fuel false) name dirs [] with
        | .error e => .error e
        | .ok ds =>
          match checkFiles name files (ds.map Tree.name) with
          | .error e => .error e
          | .ok fs => .ok (.node name false ds fs)

/-- A tree is no deeper than the value that spells it. -/
def ofJson (v : Json) : Except Defect Tree :=
  ofJsonBelow (v.depth + 1) true v

end DocNavigation.Tree
