import DocNavigation.Name

/-!
Source trees. A node holds its directories and its files in the order of their first insertion, and
owns its subtrees. A sealed node refuses insertions.
-/

namespace DocNavigation

inductive Tree where
  | node (name : String) (isSealed : Bool) (dirs : List Tree) (files : List String)
deriving Inhabited, Repr

inductive EntryKind where
  | file
  | directory
deriving DecidableEq, Repr

inductive TreeError where
  | name (e : NameError)
  | notAPath (kind : String)
  | isSealed
  | conflict (path : List String) (existing : EntryKind)
deriving DecidableEq, Repr

namespace Tree

def empty (name : String) : Tree :=
  .node name false [] []

def name : Tree → String
  | .node n _ _ _ => n

def isSealed : Tree → Bool
  | .node _ s _ _ => s

def dirs : Tree → List Tree
  | .node _ _ ds _ => ds

def files : Tree → List String
  | .node _ _ _ fs => fs

def withDirs (t : Tree) (ds : List Tree) : Tree :=
  .node t.name t.isSealed ds t.files

def withFiles (t : Tree) (fs : List String) : Tree :=
  .node t.name t.isSealed t.dirs fs

mutual

def decEq : (a b : Tree) → Decidable (a = b)
  | .node n s ds fs, .node n' s' ds' fs' =>
    have := decEqAll ds ds'
    decidable_of_iff (n = n' ∧ s = s' ∧ ds = ds' ∧ fs = fs') (by simp)

def decEqAll : (a b : List Tree) → Decidable (a = b)
  | [], [] => isTrue rfl
  | [], _ :: _ => isFalse (by simp)
  | _ :: _, [] => isFalse (by simp)
  | x :: xs, y :: ys =>
    have := decEq x y
    have := decEqAll xs ys
    decidable_of_iff (x = y ∧ xs = ys) (by simp)

end

instance : DecidableEq Tree := decEq

mutual

/-- The tree with every node's seal set to the given state. -/
def withSeal (sealing : Bool) : Tree → Tree
  | .node n _ ds fs => .node n sealing (withSealAll sealing ds) fs

def withSealAll (sealing : Bool) : List Tree → List Tree
  | [] => []
  | t :: ts => withSeal sealing t :: withSealAll sealing ts

end

/-- Closes the node and everything below it. -/
def close (t : Tree) : Tree :=
  t.withSeal true

/-- A copy that is open everywhere. -/
def copy (t : Tree) : Tree :=
  t.withSeal false

/-- Equal names, directories and files in the same order at every node; seals do not matter. -/
def same (t u : Tree) : Bool :=
  t.copy = u.copy

def child? (t : Tree) (segment : String) : Option Tree :=
  t.dirs.find? (·.name = segment)

/-- The directory reached by following the segments. -/
def at? : Tree → List String → Option Tree
  | t, [] => some t
  | t, s :: rest =>
    match t.child? s with
    | none => none
    | some c => c.at? rest

def hasFile (t : Tree) (path : List String) : Bool :=
  match path.getLast?, t.at? path.dropLast with
  | some leaf, some parent => parent.files.contains leaf
  | _, _ => false

mutual

def fileCount : Tree → Nat
  | .node _ _ ds fs => fs.length + fileCountAll ds

def fileCountAll : List Tree → Nat
  | [] => 0
  | t :: ts => fileCount t + fileCountAll ts

end

mutual

/-- The files as segment lists: those of a node come before those of its directories. -/
def filePaths (above : List String) : Tree → List (List String)
  | .node _ _ ds fs => fs.map (fun f => above ++ [f]) ++ filePathsAll above ds

def filePathsAll (above : List String) : List Tree → List (List String)
  | [] => []
  | t :: ts => filePaths (above ++ [t.name]) t ++ filePathsAll above ts

end

mutual

def dirPaths (above : List String) : Tree → List (List String)
  | .node _ _ ds _ => dirPathsAll above ds

def dirPathsAll (above : List String) : List Tree → List (List String)
  | [] => []
  | t :: ts => ((above ++ [t.name]) :: dirPaths (above ++ [t.name]) t) ++ dirPathsAll above ts

end

def joined (path : List String) : String :=
  "/".intercalate path

/-- The relative path of every file. -/
def paths (t : Tree) : List String :=
  (t.filePaths []).map joined

/-- The relative path of every directory below the root. -/
def directories (t : Tree) : List String :=
  (t.dirPaths []).map joined

mutual

/-- The node spelled out with its fields; seals are left out. -/
def shown : Tree → String
  | .node n _ ds fs =>
    "TreeNode(name=" ++ Text.quoted n ++ ", directories=[" ++ ", ".intercalate (shownAll ds)
      ++ "], files=" ++ (Json.strings fs).shown ++ ")"

def shownAll : List Tree → List String
  | [] => []
  | t :: ts => shown t :: shownAll ts

end

end Tree

def EntryKind.word : EntryKind → String
  | .file => "file"
  | .directory => "directory"

def TreeError.message : TreeError → String
  | .name e => e.message
  | .notAPath kind => s!"'{kind}' object is not iterable"
  | .isSealed => "Tree is sealed and can no longer be modified."
  | .conflict path existing =>
    s!"Name conflict at '{Tree.joined path}': a {existing.word} with that name already exists."

end DocNavigation
