import DocNavigation.CommandLine.Help
import DocNavigation.Json.Basic
import DocNavigation.Number.Integer
import DocNavigation.Text.Quoted

/-!
Reading a command line by a grammar. Options may be shortened as long as they stay unambiguous,
values may be attached to them, and two dashes end the options.
-/

namespace DocNavigation.CommandLine

inductive UsageError where
  | noValue (argument : String)
  | unusedValue (argument value : String)
  | notInteger (argument value : String)
  | notAmong (argument value : String) (choices : List String)
  | ambiguous (option : String) (candidates : List String)
  | missing (arguments : List String)
  | unknown (arguments : List String)
deriving DecidableEq, Repr

/-- What ends the reading early. -/
inductive Halt where
  | help
  | refused (e : UsageError)
deriving DecidableEq, Repr

/-- An option as it was found: which it is, how it was spelled, and a value attached to it. -/
structure Match where
  option : Option OptionSpec
  spelling : String
  equals : Bool := false
  attached : Option String := none
deriving DecidableEq, Repr

inductive Mark where
  | argument
  | dashes
  | option (m : Match)
deriving DecidableEq, Repr

abbrev Token := String × Mark

/-- The text before the first equals sign and the text after it. -/
def cutEquals (s : String) : String × Option String :=
  let cs := s.toList
  let head := cs.takeWhile (· ≠ '=')
  if head.length < cs.length then
    (String.ofList head, some (String.ofList (cs.drop (head.length + 1))))
  else (s, none)

/-- The options that a word can stand for when it is no spelling itself. -/
def candidates (g : Grammar) (word : String) : List Match :=
  if Text.startsWith "--" word then
    let (start, value) := cutEquals word
    (g.spellings.filter fun (s, _) => Text.startsWith start s).map fun (s, o) =>
      ⟨some o, s, value.isSome, value⟩
  else
    let short := String.ofList (word.toList.take 2)
    let rest := String.ofList (word.toList.drop 2)
    g.spellings.filterMap fun (s, o) =>
      if s = short then some ⟨some o, s, false, some rest⟩
      else if Text.startsWith word s then some ⟨some o, s, false, none⟩
      else none

/-- A dash and digits, with a point among them perhaps. -/
def isNegativeNumber (word : String) : Bool :=
  match word.toList with
  | '-' :: cs =>
    let cs := if cs.getLast? = some '\n' then cs.dropLast else cs
    let whole := cs.takeWhile Text.isDecimal
    match cs.drop whole.length with
    | [] => !whole.isEmpty
    | '.' :: fraction => !fraction.isEmpty && fraction.all Text.isDecimal
    | _ => false
  | _ => false

def unmatched (g : Grammar) (word : String) : Except UsageError Mark :=
  match candidates g word with
  | [m] => .ok (.option m)
  | [] =>
    .ok (if isNegativeNumber word || word.toList.contains ' ' then .argument
      else .option { option := none, spelling := word })
  | ms => .error (.ambiguous word (ms.map (·.spelling)))

def classify (g : Grammar) (word : String) : Except UsageError Mark :=
  if !Text.startsWith "-" word then .ok .argument
  else match g.option? word with
    | some o => .ok (.option { option := some o, spelling := word })
    | none =>
      if word.length = 1 then .ok .argument
      else match cutEquals word with
        | (start, some value) =>
          match g.option? start with
          | some o => .ok (.option ⟨some o, start, true, some value⟩)
          | none => unmatched g word
        | (_, none) => unmatched g word

/-- Everything after two dashes is an argument. -/
def tokens (g : Grammar) : List String → Except UsageError (List Token)
  | [] => .ok []
  | word :: words =>
    if word = "--" then .ok ((word, .dashes) :: words.map fun w => (w, .argument))
    else match classify g word, tokens g words with
      | .error e, _ => .error e
      | _, .error e => .error e
      | .ok m, .ok ts => .ok ((word, m) :: ts)

/-- What has been read so far. -/
structure Progress where
  values : List (String × Value) := []
  seen : List String := []
  extras : List String := []
  places : List PlaceSpec
deriving DecidableEq, Repr

def Mark.isArgument : Mark → Bool
  | .argument => true
  | _ => false

def Mark.isDashes : Mark → Bool
  | .dashes => true
  | _ => false

def Mark.isOption : Mark → Bool
  | .option _ => true
  | _ => false

def dashesLength (marks : List Mark) : Nat :=
  (marks.takeWhile Mark.isDashes).length

/-- How many tokens an argument takes, as many as possible; none if it does not fit. -/
def extent? (arity : Arity) (marks : List Mark) : Option Nat :=
  let before := dashesLength marks
  let rest := marks.drop before
  match arity, rest with
  | .one, .argument :: more => some (before + 1 + dashesLength more)
  | .optional, .argument :: more => some (before + 1 + dashesLength more)
  | .optional, _ => some before
  | .several, .argument :: more =>
    some (before + 1 + (more.takeWhile fun m => !m.isOption).length)
  | .command, .argument :: more => some (before + 1 + more.length)
  | _, _ => none

def choose (argument : String) (choices : List String) (value : String) : Except Halt String :=
  if choices.contains value then .ok value
  else .error (.refused (.notAmong argument value choices))

/-- Takes the words of an argument; the first two dashes among them do not count. -/
def takePlace (p : PlaceSpec) (words : List String) (s : Progress) : Except Halt Progress := do
  let plain := words.erase "--"
  let value ← match p.arity with
    | .one | .optional => pure (plain.head?.map Value.text)
    | .several => pure (some (Value.texts plain))
    | .command => do
      let _ ← choose p.placeholder (p.words.map (·.1)) (words.headD "")
      pure (some (Value.texts words))
  let values := match value with
    | some v => Json.put s.values p.key v
    | none => s.values
  return { s with values := values, seen := p.key :: s.seen }

/-- Takes as many of the arguments left as fit, and gives what follows them. -/
def takePlaces : List PlaceSpec → List Token → Progress → Except Halt (List Token × Progress)
  | [], ts, s => .ok (ts, { s with places := [] })
  | p :: ps, ts, s =>
    match extent? p.arity (ts.map (·.2)) with
    | none => .ok (ts, { s with places := p :: ps })
    | some n => do
      takePlaces ps (ts.drop n) (← takePlace p ((ts.take n).map (·.1)) s)

def optionValue (o : OptionSpec) (old : Option Value) (word : String) : Except Halt Value :=
  match o.taking with
  | .integer =>
    match Number.readInteger word with
    | .ok n => .ok (.integer n)
    | .error _ => .error (.refused (.notInteger o.name word))
  | .choice words => (choose o.name words word).map .text
  | .texts =>
    match old with
    | some (.texts items) => .ok (.texts (items ++ [word]))
    | _ => .ok (.texts [word])
  | _ => .ok (.text word)

def takeOption (o : OptionSpec) (word : Option String) (s : Progress) : Except Halt Progress := do
  let value ← match o.taking, word with
    | .help, _ => throw .help
    | .switch, _ => pure Value.switch
    | _, some w => optionValue o (Json.getKey? s.values o.key) w
    | _, none => throw (.refused (.noValue o.name))
  return { s with values := Json.put s.values o.key value, seen := o.key :: s.seen }

/-- The options that one word stands for, short ones run together, with their values, what is left
over of the word, and the tokens after it. The fuel bounds the length of the word. -/
def unfold (g : Grammar) (rest : List Token) :
    (fuel : Nat) → Match → List (OptionSpec × Option String) →
      Except Halt (List (OptionSpec × Option String) × List String × List Token)
  | 0, _, taken => .ok (taken, [], rest)
  | fuel + 1, m, taken =>
    match m.option, m.attached with
    | none, _ => .ok (taken, [m.spelling], rest)
    | some o, none =>
      if !o.taking.takesValue then .ok (taken ++ [(o, none)], [], rest)
      else match rest with
        | (word, .argument) :: rest => .ok (taken ++ [(o, some word)], [], rest)
        | _ => .error (.refused (.noValue o.name))
    | some o, some value =>
      let unused := Except.error (Halt.refused (.unusedValue o.name value))
      if o.taking.takesValue then .ok (taken ++ [(o, some value)], [], rest)
      else if Text.startsWith "--" m.spelling then unused
      else match value.toList with
        | [] => unused
        | c :: cs =>
          if m.equals ∨ c = '-' then unused
          else
            let taken := taken ++ [(o, none)]
            match g.option? (String.ofList ['-', c]), cs with
            | none, _ => .ok (taken, ["-" ++ value], rest)
            | some o, [] => unfold g rest fuel ⟨some o, String.ofList ['-', c], false, none⟩ taken
            | some o, '=' :: cs =>
              unfold g rest fuel
                ⟨some o, String.ofList ['-', c], true, some (String.ofList cs)⟩ taken
            | some o, cs =>
              unfold g rest fuel
                ⟨some o, String.ofList ['-', c], false, some (String.ofList cs)⟩ taken

def takeOptions (g : Grammar) (word : String) (m : Match) (rest : List Token) (s : Progress) :
    Except Halt (List Token × Progress) := do
  let (taken, left, rest) ← unfold g rest (word.length + 1) m []
  let s ← taken.foldlM (fun s (o, word) => takeOption o word s) s
  return (rest, { s with extras := s.extras ++ left })

/-- Takes arguments and options in turn until no option is left, then the arguments that remain. -/
def run (g : Grammar) : (fuel : Nat) → List Token → Progress → Except Halt Progress
  | 0, _, s => .ok s
  | fuel + 1, ts, s => do
    match ts with
    | (word, .option m) :: rest =>
      let (rest, s) ← takeOptions g word m rest s
      run g fuel rest s
    | _ =>
      let (rest, s) ← takePlaces s.places ts s
      if ts.any (·.2.isOption) then
        if rest.length < ts.length then run g fuel rest s
        else
          let extra := rest.takeWhile fun t => !t.2.isOption
          run g fuel (rest.drop extra.length)
            { s with extras := s.extras ++ extra.map (·.1) }
      else return { s with extras := s.extras ++ rest.map (·.1) }

def missingNames (g : Grammar) (s : Progress) : List String :=
  (g.places.filterMap fun p =>
      if p.arity ≠ .optional ∧ !s.seen.contains p.key then some p.placeholder else none)
    ++ g.options.filterMap fun o =>
      if o.required ∧ !s.seen.contains o.key then some o.name else none

def parse (g : Grammar) (words : List String) : Except Halt Progress := do
  let ts ← (tokens g words).mapError .refused
  let s ← run g (2 * ts.length + 1) ts { places := g.places }
  match missingNames g s with
  | [] => return s
  | names => throw (.refused (.missing names))

def UsageError.message : UsageError → String
  | .noValue argument => s!"argument {argument}: expected one argument"
  | .unusedValue argument value =>
    s!"argument {argument}: ignored explicit argument {Text.quoted value}"
  | .notInteger argument value => s!"argument {argument}: invalid int value: {Text.quoted value}"
  | .notAmong argument value choices =>
    s!"argument {argument}: invalid choice: {Text.quoted value} (choose from "
      ++ Text.join ", " (choices.map Text.quoted) ++ ")"
  | .ambiguous option candidates =>
    s!"ambiguous option: {option} could match " ++ Text.join ", " candidates
  | .missing arguments => "the following arguments are required: " ++ Text.join ", " arguments
  | .unknown arguments => "unrecognized arguments: " ++ Text.join " " arguments

/-- What a refusal prints. -/
def Grammar.refusalText (g : Grammar) (e : UsageError) : String :=
  g.usage ++ s!"{g.program}: error: {e.message}\n"

end DocNavigation.CommandLine
