import DocNavigation.Tree.Insert

/-!
Trees shared through handles. A handle names a node by its tree and by the directories on the way
to it, so that what one handle inserts or closes is seen through every other.
-/

namespace DocNavigation

structure Handle where
  tree : Nat
  path : List String
deriving DecidableEq, Repr

structure Grove where
  trees : List Tree := []
deriving Repr

namespace Tree

/-- Replaces the node at an existing place. -/
def replaceAt (u : Tree) : List String → Tree → Tree
  | [], _ => u
  | s :: rest, t =>
    match t.child? s with
    | none => t
    | some _ => t.withDirs (updateNamed s (replaceAt u rest) t.dirs)

end Tree

namespace Grove

def plant (g : Grove) (t : Tree) : Grove × Handle :=
  (⟨g.trees ++ [t]⟩, ⟨g.trees.length, []⟩)

def node (g : Grove) (h : Handle) : Tree :=
  ((g.trees[h.tree]?).bind (·.at? h.path)).getD (Tree.empty "")

def setNode (g : Grove) (h : Handle) (u : Tree) : Grove :=
  ⟨g.trees.modify h.tree fun t => Tree.replaceAt u h.path t⟩

/-- Changes the node behind a handle; a refusal leaves the grove as it was. -/
def edit (g : Grove) (h : Handle) (f : Tree → Except TreeError Tree) :
    Grove × Except TreeError Unit :=
  match f (g.node h) with
  | .ok u => (g.setNode h u, .ok ())
  | .error e => (g, .error e)

def insertFile (g : Grove) (h : Handle) (path : List String) : Grove × Except TreeError Unit :=
  g.edit h (·.insertFile path)

def insertDirectory (g : Grove) (h : Handle) (path : List String) :
    Grove × Except TreeError Handle :=
  match g.edit h (·.insertDirectory path) with
  | (g, .ok ()) => (g, .ok ⟨h.tree, h.path ++ path⟩)
  | (g, .error e) => (g, .error e)

def close (g : Grove) (h : Handle) : Grove :=
  g.setNode h (g.node h).close

def find? (g : Grove) (h : Handle) (path : List String) : Option Handle :=
  if ((g.node h).at? path).isSome then some ⟨h.tree, h.path ++ path⟩ else none

end Grove

end DocNavigation
