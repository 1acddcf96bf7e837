import DocNavigation.CommandLine.Grammar
import DocNavigation.Text.Lines

/-!
Usage and help of a grammar, laid out for a terminal of eighty columns.
-/

namespace DocNavigation.CommandLine

/-- The last two columns stay free. -/
def width : Nat := 78

def spaces (n : Nat) : String :=
  String.ofList (List.replicate n ' ')

/-- Puts parts on lines, a new one when the next part would not fit; `used` columns of the first
line are taken. -/
def fill (limit indent : Nat) : (used : Nat) → (line : List String) → List String → List String
  | _, [], [] => []
  | _, line, [] => [Text.join " " line]
  | used, line, part :: parts =>
    if limit < used + 1 + part.length ∧ line ≠ [] then
      Text.join " " line :: fill limit indent (indent + part.length) [part] parts
    else fill limit indent (used + 1 + part.length) (line ++ [part]) parts

/-- Lines of text, broken at blanks. -/
def wrap (limit : Nat) (text : String) : List String :=
  fillWords limit [] ((Text.split ' ' text).filter (· ≠ ""))
where
  fillWords (limit : Nat) : (line : List String) → List String → List String
    | [], [] => []
    | line, [] => [Text.join " " line]
    | line, word :: words =>
      if line ≠ [] ∧ limit < (Text.join " " (line ++ [word])).length then
        Text.join " " line :: fillWords limit [word] words
      else fillWords limit (line ++ [word]) words

namespace OptionSpec

def usageParts (o : OptionSpec) : List String :=
  let spelling := o.spellings.headD ""
  let parts := if o.taking.takesValue then [spelling, o.placeholder] else [spelling]
  if o.required then parts else ["[" ++ Text.join " " parts ++ "]"]

def heading (o : OptionSpec) : String :=
  Text.join ", " (o.spellings.map fun s =>
    if o.taking.takesValue then s ++ " " ++ o.placeholder else s)

end OptionSpec

def PlaceSpec.usageParts (p : PlaceSpec) : List String :=
  match p.arity with
  | .one => [p.placeholder]
  | .optional => ["[" ++ p.placeholder ++ "]"]
  | .several => [p.placeholder, "[" ++ p.placeholder ++ " ...]"]
  | .command => [p.placeholder, "..."]

namespace Grammar

def usage (g : Grammar) : String :=
  let lead := "usage: "
  let options := g.options.flatMap (·.usageParts)
  let places := g.places.flatMap (·.usageParts)
  let whole := Text.join " " (g.program :: options ++ places)
  if lead.length + whole.length ≤ width then lead ++ whole ++ "\n"
  else
    let indent := lead.length + g.program.length + 1
    let first := fill width (indent - 1) (lead.length - 1) [] (g.program :: options)
    let rest := fill width (indent - 1) (indent - 1) [] places
    lead ++ Text.join ("\n" ++ spaces indent) (first ++ rest) ++ "\n"

/-- A heading with its description, which begins beside it if there is room. -/
def item (column indent : Nat) (heading description : String) : String :=
  let lines := wrap (width - column) description
  let lead := spaces indent ++ heading
  let below := lines.map fun line => spaces column ++ line ++ "\n"
  if lines = [] then lead ++ "\n"
  else if lead.length + 2 ≤ column then
    lead ++ spaces (column - lead.length) ++ lines.headD "" ++ "\n" ++ String.join below.tail
  else lead ++ "\n" ++ String.join below

def headings (g : Grammar) : List String :=
  g.options.map (·.heading)
    ++ g.places.flatMap fun p => p.placeholder :: p.words.map (·.1)

/-- Where descriptions begin. -/
def column (g : Grammar) : Nat :=
  min ((g.headings.map (·.length + 2)).foldl max 0 + 2) 24

def placeItem (g : Grammar) (p : PlaceSpec) : String :=
  item g.column 2 p.placeholder p.description
    ++ String.join (p.words.map fun (word, description) => item g.column 4 word description)

def help (g : Grammar) : String :=
  let part := fun (title : String) (items : List String) =>
    if items.isEmpty then [] else [title ++ ":\n" ++ String.join items]
  Text.join "\n"
    (g.usage :: (if g.description = "" then [] else [g.description ++ "\n"])
      ++ part "positional arguments" (g.places.map g.placeItem)
      ++ part "options" (g.options.map fun o => item g.column 2 o.heading o.description))

end Grammar

end DocNavigation.CommandLine
