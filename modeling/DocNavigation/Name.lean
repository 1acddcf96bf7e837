import DocNavigation.Json.Shown
import DocNavigation.Text.Lines

/-!
Names of files, directories and units: one path segment each. Paths are given as one text with
slashes or as a sequence of segments.
-/

namespace DocNavigation

inductive NameError where
  | emptyPath
  | invalid (role : String) (value : Json)
deriving DecidableEq, Repr

namespace Name

/-- A segment is not empty, is no relative marker and holds no separator. -/
def isSegment (s : String) : Bool :=
  s ≠ "" && s ≠ "." && s ≠ ".." && !s.toList.contains '/' && !s.toList.contains '\\'

/-- Checks a value that is to name something in the given role. -/
def check (role : String) (value : Json) : Except NameError String :=
  match value with
  | .str s => if isSegment s then .ok s else .error (.invalid role value)
  | _ => .error (.invalid role value)

def checkPath (segments : List Json) : Except NameError (List String) :=
  if segments.isEmpty then .error .emptyPath else segments.mapM (check "tree")

end Name

def NameError.message : NameError → String
  | .emptyPath => "Tree path must contain at least one segment."
  | .invalid role value => s!"Invalid {role} name: {value.shown}."

end DocNavigation
