/-!
Grammars of command lines: options with their spellings, arguments that go by their place, and
commands with grammars of their own.
-/

namespace DocNavigation.CommandLine

/-- What an option takes, and what becomes of it. -/
inductive Taking where
  | help
  | switch
  | text
  | choice (words : List String)
  | texts
  | integer
deriving DecidableEq, Repr

structure OptionSpec where
  spellings : List String
  key : String
  taking : Taking
  placeholder : String
  required : Bool := false
  description : String
deriving DecidableEq, Repr

inductive Arity where
  | one
  | optional
  | several
  | command
deriving DecidableEq, Repr

/-- An argument that goes by its place. A command has words to choose from, each described. -/
structure PlaceSpec where
  key : String
  placeholder : String
  arity : Arity
  description : String := ""
  words : List (String × String) := []
deriving DecidableEq, Repr

/-- The arguments in the order in which they are asked for: places and options. -/
structure Grammar where
  program : String
  description : String := ""
  places : List PlaceSpec := []
  options : List OptionSpec := []
deriving DecidableEq, Repr

inductive Value where
  | switch
  | text (s : String)
  | texts (items : List String)
  | integer (n : Int)
deriving DecidableEq, Repr

def Taking.takesValue : Taking → Bool
  | .help | .switch => false
  | _ => true

namespace OptionSpec

/-- How messages name an option. -/
def name (o : OptionSpec) : String :=
  "/".intercalate o.spellings

end OptionSpec

namespace Grammar

/-- The spellings of all options with the options, in order. -/
def spellings (g : Grammar) : List (String × OptionSpec) :=
  g.options.flatMap fun o => o.spellings.map fun s => (s, o)

def option? (g : Grammar) (spelling : String) : Option OptionSpec :=
  (g.spellings.find? (·.1 = spelling)).map (·.2)

end Grammar

end DocNavigation.CommandLine
