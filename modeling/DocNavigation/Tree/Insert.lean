import DocNavigation.Tree.Basic

/-!
Insertion. A path is checked whole before anything is created: a file on the way is a conflict, and
so is a directory where a file is to go. Only the seal of the node that the insertion starts from
counts.
-/

namespace DocNavigation.Tree

/-- The segments that a path value spells: a text is cut at its slashes, a sequence gives its items
and an object its keys. -/
def segmentsOf : Json → Except TreeError (List String)
  | .str s => ((Name.checkPath ((Text.split '/' s).map .str)).mapError .name)
  | .arr items => (Name.checkPath items).mapError .name
  | .obj fields => (Name.checkPath (fields.map fun (k, _) => .str k)).mapError .name
  | v => .error (.notAPath v.kind)

/-- The shortest leading part of the path that is a file. -/
def blockingFile? : Tree → List String → Option (List String)
  | _, [] => none
  | t, s :: rest =>
    if t.files.contains s then some [s]
    else match t.child? s with
      | none => none
      | some c => (c.blockingFile? rest).map (s :: ·)

/-- Changes the directory of that name, or adds one changed from empty. -/
def updateNamed (segment : String) (f : Tree → Tree) : List Tree → List Tree
  | [] => [f (empty segment)]
  | t :: ts => if t.name = segment then f t :: ts else t :: updateNamed segment f ts

/-- Changes the directory at the end of the path, creating the missing levels. -/
def grow (f : Tree → Tree) : List String → Tree → Tree
  | [], t => f t
  | s :: rest, t => t.withDirs (updateNamed s (grow f rest) t.dirs)

def addFile (leaf : String) (t : Tree) : Tree :=
  if t.files.contains leaf then t else t.withFiles (t.files ++ [leaf])

def insertFile (t : Tree) (path : List String) : Except TreeError Tree :=
  if t.isSealed then .error .isSealed
  else match t.blockingFile? path.dropLast with
    | some p => .error (.conflict p .file)
    | none =>
      if (t.at? path).isSome then .error (.conflict path .directory)
      else .ok (grow (addFile (path.getLastD "")) path.dropLast t)

def insertDirectory (t : Tree) (path : List String) : Except TreeError Tree :=
  if t.isSealed then .error .isSealed
  else match t.blockingFile? path with
    | some p => .error (.conflict p .file)
    | none => .ok (grow id path t)

end DocNavigation.Tree
