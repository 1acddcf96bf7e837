import DocNavigation.Disk.Text
import DocNavigation.Filter.Basic
import DocNavigation.Filter.Ignored

/-!
Scanning a folder of sources into a tree. Folders are entered and files listed in the order of their
names; a folder without a listed file below it does not appear.
-/

namespace DocNavigation

/-- What to look for; what is not given is as usual. -/
structure ScanOptions where
  extensions : Option (List String) := none
  included : Option (List String) := none
  excluded : Option (List String) := none
  respectIgnored : Bool := true
deriving DecidableEq, Repr

namespace Scan

def sorted (names : List String) : List String :=
  names.mergeSort fun a b => !(b < a)

/-- Links that end at a folder are neither entered nor listed. -/
def leadsToFolder (d : Disk) (p : Place) (name : String) : Bool :=
  match d.through true Disk.maxLinks [name] p with
  | .ok (.entry _ .folder) => true
  | _ => false

def folderNames (d : Disk) (p : Place) : List String :=
  sorted ((d.children p).filterMap fun (name, e) => if e = .folder then some name else none)

def fileNames (d : Disk) (p : Place) : List String :=
  sorted ((d.children p).filterMap fun (name, _) =>
    if leadsToFolder d p name then none else some name)

/-- The relative paths of the accepted files below a folder. The fuel bounds the depth. -/
def filesBelow (d : Disk) (f : Filter) :
    (fuel : Nat) → Place → (above : List String) → List (List String)
  | 0, _, _ => []
  | fuel + 1, p, above =>
    ((fileNames d p).filter f.accepts).map (fun name => above ++ [name])
      ++ ((folderNames d p).filter fun name => !f.rejects name).flatMap fun name =>
        filesBelow d f fuel (p ++ [name]) (above ++ [name])

/-- No place of the disk is deeper. -/
def depthBound (d : Disk) : Nat :=
  (d.entries.map (·.1.length)).foldl max 0 + 1

def files (d : Disk) (f : Filter) (root : Place) : List (List String) :=
  filesBelow d f (depthBound d) root []

/-- Inserts the paths in turn, checking the names of each. -/
def insertAll (t : Tree) (paths : List (List String)) : Except TreeError Tree :=
  paths.foldlM
    (fun t path =>
      match Name.checkPath (path.map .str) with
      | .error e => .error (.name e)
      | .ok path => t.insertFile path)
    t

def ignoredPatterns (d : Disk) (root : String) : Except Fault (List String) :=
  let path := Path.join root Ignored.fileName
  if d.isThere path then (d.bytes path).map Ignored.patterns else .ok []

def compileAll (patterns : List String) : Except Fault (List Pattern.Node) :=
  match Filter.compile patterns with
  | .error e => .error (.pattern e)
  | .ok nodes => .ok (nodes.map (·.2))

/-- An empty list of patterns that let in counts as none given. -/
def filterFor (d : Disk) (o : ScanOptions) (root : String) : Except Fault Filter := do
  let ignored ← if o.respectIgnored then ignoredPatterns d root else pure []
  let included := match o.included with
    | none | some [] => Settings.usualIncluded
    | some patterns => patterns
  return {
    extensions := o.extensions.getD Settings.usualExtensions
    included := ← compileAll included
    excluded := ← compileAll (o.excluded.getD Settings.usualExcluded ++ ignored) }

/-- The tree of the sources in a folder. -/
def tree (d : Disk) (o : ScanOptions) (path : String) : Except Fault Tree :=
  let root := d.absolute path
  match d.resolve true root with
  | .ok (.entry p .folder) => do
    let f ← filterFor d o root
    (insertAll (Tree.empty "") (files d f p)).mapError .tree
  | _ => .error (.sourceRoot path)

end Scan

end DocNavigation
