import DocNavigation.Path.Basic
import DocNavigation.Pattern.Read
import DocNavigation.Pattern.Search

/-!
Filters on the names of files and folders: patterns that let in, patterns that keep out, and a list
of extensions.
-/

namespace DocNavigation

structure Filter where
  extensions : List String
  included : List Pattern.Node
  excluded : List Pattern.Node
deriving DecidableEq, Repr

namespace Filter

/-- The pattern, unless it is malformed. Only a pattern at odds with the bounds of patterns as such
is an error. -/
def compile? (text : String) : Except Pattern.ReadError (Option Pattern.Node) :=
  match Pattern.read text with
  | .ok n => .ok (some n)
  | .error .malformed => .ok none
  | .error e => .error e

/-- The patterns that are well formed, with their texts. -/
def compile : List String → Except Pattern.ReadError (List (String × Pattern.Node))
  | [] => .ok []
  | text :: rest =>
    match compile? text, compile rest with
    | .error e, _ => .error e
    | _, .error e => .error e
    | .ok none, .ok nodes => .ok nodes
    | .ok (some n), .ok nodes => .ok ((text, n) :: nodes)

def matchesAny (patterns : List Pattern.Node) (name : String) : Bool :=
  patterns.any (·.found name)

/-- A listed extension is that of the name or the whole name; an empty list accepts all. -/
def hasExtension (extensions : List String) (name : String) : Bool :=
  extensions.isEmpty || extensions.contains (Path.extension name) || extensions.contains name

def rejects (f : Filter) (name : String) : Bool :=
  matchesAny f.excluded name

def accepts (f : Filter) (name : String) : Bool :=
  !f.rejects name && matchesAny f.included name && hasExtension f.extensions name

end Filter

end DocNavigation
