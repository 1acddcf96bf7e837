import DocNavigation.Template.Number

/-!
Templates: text with fields in braces, each of which names an argument, a way into it, a conversion
and a specification. Doubled braces stand for themselves.
-/

namespace DocNavigation.Template

/-- A step into a value. -/
inductive Step where
  | member (name : String)
  | index (n : Nat)
  | key (name : String)
deriving DecidableEq, Repr

structure Field where
  name : List Char
  conversion : Option Char := none
  spec : List Char := []
deriving DecidableEq, Repr

/-- Up to the end of a name: the name, the character that ends it, and the rest. What stands in
square brackets does not end it. -/
def fieldName : (bracketed : Bool) → List Char → List Char →
    Except TemplateError (List Char × Option Char × List Char)
  | _, acc, [] => .ok (acc.reverse, none, [])
  | true, acc, c :: cs => fieldName (c ≠ ']') (c :: acc) cs
  | false, acc, c :: cs =>
    if c = '\x7b' then .error .braceInName
    else if c = '\x7d' ∨ c = ':' ∨ c = '!' then .ok (acc.reverse, some c, cs)
    else fieldName (c = '[') (c :: acc) cs

/-- Up to the brace that closes the field. -/
def specText : (depth : Nat) → List Char → List Char →
    Except TemplateError (List Char × List Char)
  | _, _, [] => .error .openSpec
  | depth, acc, c :: cs =>
    if c = '\x7b' then specText (depth + 1) (c :: acc) cs
    else if c = '\x7d' then
      match depth with
      | 0 => .ok (acc.reverse, cs)
      | depth + 1 => specText depth (c :: acc) cs
    else specText depth (c :: acc) cs

def afterConversion (name : List Char) (conversion : Char) (cs : List Char) :
    Except TemplateError (Field × List Char) := do
  match cs with
  | '\x7d' :: cs => return (⟨name, some conversion, []⟩, cs)
  | [] | ':' :: _ =>
    let (spec, cs) ← specText 0 [] (cs.drop 1)
    return (⟨name, some conversion, spec⟩, cs)
  | _ => throw .afterConversion

/-- The field after an opening brace, and the rest. -/
def field (cs : List Char) : Except TemplateError (Field × List Char) := do
  let (name, stop, cs) ← fieldName false [] cs
  match stop, cs with
  | some '\x7d', _ => return (⟨name, none, []⟩, cs)
  | some ':', _ =>
    let (spec, cs) ← specText 0 [] cs
    return (⟨name, none, spec⟩, cs)
  | some '!', [] => throw .noConversion
  | some '!', c :: cs => afterConversion name c cs
  | _, _ => throw .openField

/-- The number that a name spells, if it spells one. -/
def position? (cs : List Char) : Except TemplateError (Option Nat) :=
  if cs.all Text.isDecimal then (Spec.number? cs).map (·.1) else .ok none

/-- The step at the front of the rest of a name, and what follows it. -/
def step (cs : List Char) : Except TemplateError (Option (Step × List Char)) := do
  match cs with
  | [] => return none
  | '.' :: cs =>
    let name := cs.takeWhile fun c => c ≠ '.' ∧ c ≠ '['
    if name.isEmpty then throw .emptyPart
    return some (.member (String.ofList name), cs.drop name.length)
  | '[' :: cs =>
    let name := cs.takeWhile (· ≠ ']')
    if name.isEmpty then throw .emptyPart
    let rest := cs.drop (name.length + 1)
    match ← position? name with
    | some n => return some (.index n, rest)
    | none => return some (.key (String.ofList name), rest)
  | _ => throw .afterBracket

/-- The argument that a field starts from. There are none without a name. -/
def argument (args : List (String × Json)) (name : List Char) : Except TemplateError Json := do
  if name.isEmpty then throw (.noPosition 0)
  match ← position? name with
  | some n => throw (.noPosition n)
  | none =>
    match Json.getKey? args (String.ofList name) with
    | some v => return v
    | none => throw (.noArgument (String.ofList name))

def member (v : Json) (name : String) : Except TemplateError Json :=
  match v with
  | .int _ =>
    if name = "real" ∨ name = "numerator" then .ok v
    else if name = "imag" then .ok (.int 0)
    else if name = "denominator" then .ok (.int 1)
    else .error (.noAttribute v.kind name)
  | v => .error (.noAttribute v.kind name)

def item (v : Json) (n : Nat) : Except TemplateError Json :=
  match v with
  | .str s =>
    match s.toList[n]? with
    | some c => .ok (.str (String.singleton c))
    | none => .error (.indexOutOfRange "string")
  | .arr items =>
    match items[n]? with
    | some v => .ok v
    | none => .error (.indexOutOfRange "list")
  | .obj _ => .error (.noKey (.int n))
  | v => .error (.noItems v.kind)

def entry (v : Json) (key : String) : Except TemplateError Json :=
  match v with
  | .obj fields =>
    match Json.getKey? fields key with
    | some v => .ok v
    | none => .error (.noKey (.str key))
  | .str _ | .arr _ => .error (.textIndex v.kind)
  | v => .error (.noItems v.kind)

def Step.take (v : Json) : Step → Except TemplateError Json
  | .member name => Template.member v name
  | .index n => item v n
  | .key name => entry v name

/-- Steps are taken as they are read, so that a wrong step comes before a later one that is no
step. -/
def walk : (fuel : Nat) → Json → List Char → Except TemplateError Json
  | 0, v, _ => .ok v
  | fuel + 1, v, cs => do
    match ← step cs with
    | none => return v
    | some (s, rest) => walk fuel (← s.take v) rest

def value (args : List (String × Json)) (name : List Char) : Except TemplateError Json := do
  let first := name.takeWhile fun c => c ≠ '.' ∧ c ≠ '['
  walk (name.length + 1) (← argument args first) (name.drop first.length)

/-- Quoted text with everything outside of ASCII escaped. -/
def asciiShown (v : Json) : String :=
  String.ofList (v.shown.toList.flatMap fun c =>
    if c.toNat < 128 then [c] else Text.escapedCode c)

/-- Whole numbers with too many digits have no text. -/
def written (v : Json) (text : String) : Except TemplateError String :=
  match v with
  | .int n => (Spec.digitsOf 10 n.natAbs).map fun _ => text
  | _ => .ok text

def convert (conversion : Option Char) (v : Json) : Except TemplateError Json :=
  match conversion with
  | none => .ok v
  | some 'r' => (written v v.shown).map .str
  | some 's' => (written v v.plain).map .str
  | some 'a' => (written v (asciiShown v)).map .str
  | some c => .error (.unknownConversion c)

/-- Lays out a value; an empty specification leaves it to itself. -/
def layOut (v : Json) (spec : String) : Except TemplateError String := do
  if spec = "" then return ← written v v.plain
  match v with
  | .str s => (← Spec.read spec "str" .left).text s
  | .int n => (← Spec.read spec "int" .right).whole n "int"
  | .bool b => (← Spec.read spec "bool" .right).whole (if b then 1 else 0) "bool"
  | .float x => (← Spec.read spec "float" .right).float x
  | v => throw (.noSpec v.kind)

/-- A brace at the front of the rest: doubled, opening a field, or wrong. -/
inductive Front where
  | plain (c : Char)
  | opening

def front (c : Char) (rest : List Char) : Except TemplateError Front :=
  if c ≠ '\x7b' ∧ c ≠ '\x7d' then .ok (.plain c)
  else if rest.head? = some c then .ok (.plain c)
  else if c = '\x7d' ∨ rest.isEmpty then .error (.loneBrace c)
  else .ok .opening

/-- Renders with specifications nested at most `depth` deep. The fuel bounds the length. -/
def renderFrom (args : List (String × Json)) :
    (depth fuel : Nat) → List Char → List Char → Except TemplateError (List Char)
  | _, 0, _, acc => .ok acc.reverse
  | _, _ + 1, [], acc => .ok acc.reverse
  | depth, fuel + 1, c :: rest, acc => do
    match ← front c rest with
    | .plain d =>
      renderFrom args depth fuel (if c = '\x7b' ∨ c = '\x7d' then rest.tail else rest) (d :: acc)
    | .opening =>
      let (f, rest) ← field rest
      let v ← convert f.conversion (← value args f.name)
      let spec ←
        if f.spec.contains '\x7b' then
          match depth with
          | 0 => throw .tooDeep
          | depth + 1 => renderFrom args depth fuel f.spec []
        else pure f.spec
      let text ← layOut v (String.ofList spec)
      renderFrom args depth fuel rest (text.toList.reverse ++ acc)

def maxDepth : Nat := 1

def render (args : List (String × Json)) (template : String) : Except TemplateError String :=
  (renderFrom args maxDepth (template.length + 1) template.toList []).map String.ofList

end DocNavigation.Template
