import DocNavigation.Number.Integer
import DocNavigation.Pattern.Node
import DocNavigation.Text.Hex

/-!
Reading regular expressions. An expression is read from left to right with a record of its groups;
what cannot be read is malformed, but for repetition numbers out of range and two alphabets asked
for at once, which are errors of their own.
-/

namespace DocNavigation.Pattern

inductive ReadError where
  | malformed
  | repetitionTooLarge
  | hugeNumber (digits : Nat)
  | alphabetClash
deriving DecidableEq, Repr

structure Modes where
  ignoreCase : Bool := false
  multiLine : Bool := false
  dotAll : Bool := false
  verbose : Bool := false
  ascii : Bool := false
deriving DecidableEq, Repr

/-- The text still to be read and what is known of the groups: how many were opened, their names,
the widths of those closed, and the number of groups opened before the enclosing look behind. -/
structure Progress where
  rest : List Char
  opened : Nat := 0
  names : List (String × Nat) := []
  closed : List (Nat × Nat × Nat) := []
  behind : Option Nat := none
  asked : List Nat := []
  modes : Modes := {}
  unicode : Bool := false
  template : Bool := false

abbrev Read := StateT Progress (Except ReadError)

namespace Read

def refuse {α : Type} : Read α := throw .malformed

def rest : Read (List Char) := return (← get).rest

def setRest (cs : List Char) : Read Unit := modify fun p => { p with rest := cs }

/-- Skips one given character if it comes next. -/
def skip? (c : Char) : Read Bool := do
  match ← rest with
  | d :: cs => if c = d then setRest cs; return true else return false
  | [] => return false

def expect (c : Char) : Read Unit := do
  unless ← skip? c do refuse

def takeWhile (limit : Nat) (p : Char → Bool) : Read (List Char) := do
  let cs ← rest
  let taken := (cs.take limit).takeWhile p
  setRest (cs.drop taken.length)
  return taken

end Read

open Read

def isOctal (c : Char) : Bool := '0' ≤ c && c ≤ '7'

def octalValue (cs : List Char) : Nat :=
  cs.foldl (fun n c => 8 * n + (c.toNat - 48)) 0

/-- A code given by exactly so many hexadecimal digits. -/
def hexCode (digits : Nat) : Read Nat := do
  let cs ← takeWhile digits fun c => (Text.hexValue? c).isSome
  match Text.hexNumber? cs with
  | some n => if cs.length = digits ∧ n < 0x110000 then return n else refuse
  | none => refuse

def controlCode? : Char → Option Nat
  | 'a' => some 7
  | 'f' => some 12
  | 'n' => some 10
  | 'r' => some 13
  | 't' => some 9
  | 'v' => some 11
  | '\\' => some 92
  | _ => none

def category? : Char → Option SetItem
  | 'd' => some (.category .digit false)
  | 'D' => some (.category .digit true)
  | 's' => some (.category .space false)
  | 'S' => some (.category .space true)
  | 'w' => some (.category .word false)
  | 'W' => some (.category .word true)
  | _ => none

/-- The codes spelled with a letter and digits; other letters mean nothing after a backslash. -/
def escapedCode (c : Char) : Read Nat :=
  if c = 'x' then hexCode 2
  else if c = 'u' then hexCode 4
  else if c = 'U' then hexCode 8
  else if c.isAlphanum then refuse
  else return c.toNat

/-- An escape within brackets, after its backslash. -/
def setEscape : Read SetItem := do
  match ← rest with
  | [] => refuse
  | c :: cs =>
    setRest cs
    if c = 'b' then return .code 8
    match controlCode? c, category? c with
    | some n, _ => return .code n
    | _, some item => return item
    | none, none =>
      if isOctal c then
        let n := octalValue (c :: (← takeWhile 2 isOctal))
        if n ≤ 0o377 then return .code n else refuse
      else return .code (← escapedCode c)

/-- One end of a range, or a character on its own. -/
def setMember (c : Char) : Read SetItem :=
  if c = '\\' then setEscape else return .code c.toNat

/-- The items up to the closing bracket; a bracket that comes first is an item. -/
def setItems : (fuel : Nat) → (acc : List SetItem) → Read (List SetItem)
  | 0, _ => refuse
  | fuel + 1, acc => do
    match ← rest with
    | [] => refuse
    | c :: cs =>
      setRest cs
      if c = ']' ∧ acc ≠ [] then return acc.reverse
      let first ← setMember c
      if ← skip? '-' then
        match ← rest with
        | [] => refuse
        | d :: ds =>
          setRest ds
          if d = ']' then return (.code '-'.toNat :: first :: acc).reverse
          match first, ← setMember d with
          | .code lo, .code hi =>
            if lo ≤ hi then setItems fuel (.range lo hi :: acc) else refuse
          | _, _ => refuse
      else setItems fuel (first :: acc)

def setNode (m : Modes) : Read Node := do
  let negated ← skip? '^'
  let items ← setItems (← rest).length []
  return .set ⟨items, negated, m.ignoreCase, m.ascii⟩

def literal (m : Modes) (n : Nat) : Node :=
  .set ⟨[.code n], false, m.ignoreCase, m.ascii⟩

/-- Within a look behind only groups closed before it may be referred to. -/
def checkBehind (group : Nat) : Read Unit := do
  let p ← get
  match p.behind with
  | none => return
  | some outside =>
    unless p.closed.any (·.1 = group) && group ≤ outside do refuse

def backref (m : Modes) (group : Nat) : Read Node := do
  let p ← get
  match p.closed.find? (·.1 = group) with
  | none => refuse
  | some (_, least, most) =>
    checkBehind group
    return .backref group m.ignoreCase m.ascii least most

/-- A digit other than zero begins three octal digits or the number of a group. -/
def numberedEscape (m : Modes) (c : Char) : Read Node := do
  match ← rest with
  | d :: e :: cs =>
    if isOctal c && isOctal d && isOctal e then
      setRest cs
      let n := octalValue [c, d, e]
      if n ≤ 0o377 then return literal m n else refuse
    else if d.isDigit then
      setRest (e :: cs)
      backref m (10 * (c.toNat - 48) + (d.toNat - 48))
    else backref m (c.toNat - 48)
  | [d] =>
    if d.isDigit then
      setRest []
      backref m (10 * (c.toNat - 48) + (d.toNat - 48))
    else backref m (c.toNat - 48)
  | [] => backref m (c.toNat - 48)

def anchor? (m : Modes) : Char → Option Anchor
  | 'A' => some .textStart
  | 'Z' => some .textEnd
  | 'b' => some (.boundary m.ascii false)
  | 'B' => some (.boundary m.ascii true)
  | _ => none

/-- An escape outside of brackets, after its backslash. -/
def escapeNode (m : Modes) : Read Node := do
  match ← rest with
  | [] => refuse
  | c :: cs =>
    setRest cs
    match anchor? m c, category? c, controlCode? c with
    | some a, _, _ => return .anchor a
    | _, some item, _ => return .set ⟨[item], false, m.ignoreCase, m.ascii⟩
    | _, _, some n => return literal m n
    | none, none, none =>
      if c = '0' then return literal m (octalValue (← takeWhile 2 isOctal))
      else if c.isDigit then numberedEscape m c
      else return literal m (← escapedCode c)

/-- Skips up to a terminator; an escaped character does not terminate. -/
def textUntil (terminator : Char) : List Char → (acc : List Char) →
    Option (List Char × List Char)
  | [], _ => none
  | '\\' :: c :: cs, acc => textUntil terminator cs (c :: '\\' :: acc)
  | c :: cs, acc =>
    if c = terminator then some (acc.reverse, cs) else textUntil terminator cs (c :: acc)

/-- The last backslash has nothing to escape. -/
def endsInBackslash : List Char → Bool
  | [] => false
  | ['\\'] => true
  | '\\' :: _ :: cs => endsInBackslash cs
  | _ :: cs => endsInBackslash cs

def nameUntil (terminator : Char) : Read (List Char) := do
  match textUntil terminator (← rest) [] with
  | none => refuse
  | some ([], _) => refuse
  | some (name, cs) => setRest cs; return name

/-- A word that does not begin with a digit. -/
def isIdentifier : List Char → Bool
  | [] => false
  | c :: cs => Text.isWordChar c && !Text.isDigitLike c && cs.all Text.isWordChar

def groupName (terminator : Char) : Read String := do
  let name ← nameUntil terminator
  if isIdentifier name then return String.ofList name else refuse

def namedGroup (name : String) : Read Nat := do
  match (← get).names.find? (·.1 = name) with
  | some (_, n) => return n
  | none => refuse

/-- The group that a condition asks about, by name or by number. A number may belong to a group
that is opened later. -/
def conditionGroup : Read Nat := do
  let name ← nameUntil ')'
  let text := String.ofList name
  let group ←
    if isIdentifier name then namedGroup text
    else match Number.readInteger text with
      | .ok n =>
        if 0 < n ∧ n < 1073741823 then
          modify fun p => { p with asked := n.toNat :: p.asked }
          pure n.toNat
        else refuse
      | .error _ => refuse
  checkBehind group
  return group

def openGroup (name : Option String) : Read Nat := do
  let p ← get
  let group := p.opened + 1
  match name with
  | none => set { p with opened := group }
  | some n =>
    if p.names.any (·.1 = n) then refuse
    else set { p with opened := group, names := (n, group) :: p.names }
  return group

def closeGroup (group : Nat) (body : Node) : Read Unit :=
  modify fun p => { p with closed := (group, body.width.1, body.width.2) :: p.closed }

def flagLetters : List Char := ['i', 'L', 'm', 's', 'x', 'a', 't', 'u']
def alphabetLetters : List Char := ['a', 'L', 'u']

/-- The letters of a run of flags and what ended it. -/
def flagRun (stops : List Char) : List Char → (acc : List Char) →
    Except ReadError (List Char × Char × List Char)
  | [], _ => .error .malformed
  | c :: cs, acc =>
    if acc ≠ [] ∧ c ∈ stops then .ok (acc.reverse, c, cs)
    else if c ∈ flagLetters then flagRun stops cs (c :: acc)
    else .error .malformed

inductive FlagGroup where
  | whole (on : List Char)
  | scoped (on off : List Char)

/-- Flags for the whole expression, or those turned on and off for one group. -/
def readFlags : Read FlagGroup := do
  let (on, stop, cs) ← match ← rest with
    | '-' :: cs => pure ([], '-', cs)
    | cs => liftM (flagRun [')', '-', ':'] cs [])
  if 'L' ∈ on ∨ ('a' ∈ on ∧ 'u' ∈ on) then refuse
  setRest cs
  if stop = ')' then return .whole on
  if 't' ∈ on then refuse
  if stop = ':' then return .scoped on []
  let (off, _, cs) ← liftM (flagRun [':'] cs [])
  if off.any (fun c => alphabetLetters.contains c || c = 't' || on.contains c) then refuse
  setRest cs
  return .scoped on off

def Modes.turn (m : Modes) (on off : List Char) : Modes where
  ignoreCase := (m.ignoreCase || 'i' ∈ on) && 'i' ∉ off
  multiLine := (m.multiLine || 'm' ∈ on) && 'm' ∉ off
  dotAll := (m.dotAll || 's' ∈ on) && 's' ∉ off
  verbose := (m.verbose || 'x' ∈ on) && 'x' ∉ off
  ascii := (m.ascii && 'u' ∉ on) || 'a' ∈ on

def turnWhole (on : List Char) : Read Unit :=
  modify fun p =>
    { p with
      modes := { p.modes.turn on [] with ascii := p.modes.ascii || 'a' ∈ on }
      unicode := p.unicode || 'u' ∈ on
      template := p.template || 't' ∈ on }

/-- Numbers of repetitions from here on are refused. -/
def repetitionLimit : Nat := 4294967295

def repetitionNumber (digits : List Char) : Except ReadError Nat :=
  let n := Number.valueOfDigits (digits.map fun c => c.toNat - 48)
  if Number.maxDigits < digits.length then .error (.hugeNumber digits.length)
  else if repetitionLimit ≤ n then .error .repetitionTooLarge
  else .ok n

/-- The bounds that follow an opening brace, or nothing if the brace stands for itself. -/
def braceBounds? (cs : List Char) :
    Except ReadError (Option ((Nat × Option Nat) × List Char)) := do
  if cs.head? = some '\x7d' then return none
  let (lo, cs) := cs.span Char.isDigit
  let (hi, cs) := match cs with
    | ',' :: cs => cs.span Char.isDigit
    | cs => (lo, cs)
  match cs with
  | '\x7d' :: cs =>
    if cs = ['\\'] then throw .malformed
    let least ← if lo.isEmpty then pure 0 else repetitionNumber lo
    let most ← if hi.isEmpty then pure none else (repetitionNumber hi).map some
    if most.any (· < least) then throw .malformed
    return some ((least, most), cs)
  | _ => return none

/-- The bounds of a repetition whose first character has been read. -/
def bounds? (c : Char) : Read (Option (Nat × Option Nat)) := do
  if c = '?' then return some (0, some 1)
  else if c = '*' then return some (0, none)
  else if c = '+' then return some (1, none)
  else match ← liftM (braceBounds? (← rest)) with
    | none => return none
    | some (bounds, cs) => setRest cs; return some bounds

/-- The sign after a repetition; a second sign is not read. -/
def readGreed : Read Greed := do
  if ← skip? '?' then return .lazy
  return if ← skip? '+' then .possessive else .greedy

/-- Repeats the last item; there has to be one, neither an anchor nor repeated already. -/
def repeatLast (least : Nat) (most : Option Nat) (items : List Node) : Read (List Node) := do
  match items with
  | [] => refuse
  | last :: others =>
    if last.isAnchor || last.isRepetition then refuse
    return .rep least most (← readGreed) last :: others

def sequence (items : List Node) : Node :=
  match items with
  | [] => .empty
  | [n] => n
  | n :: ns => .seq n (sequence ns)

def isVerboseSpace (c : Char) : Bool :=
  c = ' ' || (0x09 ≤ c.toNat && c.toNat ≤ 0x0d)

/-- What a character stands for that opens neither a group, a set, an escape nor a repetition. -/
def plainNode (m : Modes) (c : Char) : Node :=
  if c = '.' then .any m.dotAll
  else if c = '^' then .anchor (if m.multiLine then .lineStart else .textStart)
  else if c = '$' then .anchor (if m.multiLine then .lineEnd else .lastLineEnd)
  else literal m c.toNat

mutual

/-- Alternatives. Only the first item of the outermost first alternative may set modes for the whole
expression, and the later alternatives of that level then use them. -/
def readAlternatives : (fuel : Nat) → (outermost first : Bool) → Modes → Read Node
  | 0, _, _, _ => refuse
  | fuel + 1, outermost, first, m => do
    let n ← readSequence fuel (outermost && first) m []
    if ← skip? '|' then
      let whole := (← get).modes
      return .alt n (← readAlternatives fuel outermost false (if outermost then whole else m))
    else return n

/-- Items up to a bar, a closing parenthesis or the end, the latest first in `acc`. -/
def readSequence : (fuel : Nat) → (first : Bool) → Modes → (acc : List Node) → Read Node
  | 0, _, _, _ => refuse
  | fuel + 1, first, m, acc => do
    match ← rest with
    | [] => return sequence acc.reverse
    | c :: cs =>
      if c = '|' ∨ c = ')' then return sequence acc.reverse
      setRest cs
      if m.verbose && isVerboseSpace c then readSequence fuel first m acc
      else if m.verbose && c = '#' then
        if endsInBackslash cs then refuse
        setRest (((textUntil '\n' cs []).map (·.2)).getD [])
        readSequence fuel first m acc
      else if c = '\\' then readSequence fuel first m ((← escapeNode m) :: acc)
      else if c = '[' then readSequence fuel first m ((← setNode m) :: acc)
      else if c = '(' then
        match ← readGroup fuel (first && acc.isEmpty) m with
        | some n => readSequence fuel first m (n :: acc)
        | none =>
          let whole := (← get).modes
          readSequence fuel first (if first && acc.isEmpty then whole else m) acc
      else if c = '*' ∨ c = '+' ∨ c = '?' ∨ c = '\x7b' then
        match ← bounds? c with
        | some (least, most) => readSequence fuel first m (← repeatLast least most acc)
        | none => readSequence fuel first m (literal m c.toNat :: acc)
      else readSequence fuel first m (plainNode m c :: acc)

/-- What follows an opening parenthesis. Comments and modes leave no item. -/
def readGroup : (fuel : Nat) → (first : Bool) → Modes → Read (Option Node)
  | 0, _, _ => refuse
  | fuel + 1, first, m => do
    match ← rest with
    | '?' :: 'P' :: '<' :: cs =>
      setRest cs
      let name ← groupName '>'
      some <$> readCapture fuel (some name) m
    | '?' :: 'P' :: '=' :: cs =>
      setRest cs
      let name ← groupName ')'
      some <$> backref m (← namedGroup name)
    | '?' :: ':' :: cs =>
      setRest cs
      let n ← readAlternatives fuel false false m
      expect ')'
      return some (.group none n)
    | '?' :: '#' :: cs =>
      match textUntil ')' cs [] with
      | some (_, cs) => setRest cs; return none
      | none => refuse
    | '?' :: '=' :: cs => setRest cs; some <$> readAhead fuel false m
    | '?' :: '!' :: cs => setRest cs; some <$> readAhead fuel true m
    | '?' :: '<' :: '=' :: cs => setRest cs; some <$> readBehind fuel false m
    | '?' :: '<' :: '!' :: cs => setRest cs; some <$> readBehind fuel true m
    | '?' :: '(' :: cs =>
      setRest cs
      let group ← conditionGroup
      let yes ← readSequence fuel false m []
      let no ← if ← skip? '|' then readSequence fuel false m [] else pure .empty
      expect ')'
      return some (.given group yes no)
    | '?' :: '>' :: cs =>
      setRest cs
      let n ← readAlternatives fuel false false m
      expect ')'
      return some (.atomic n)
    | '?' :: cs =>
      setRest cs
      match ← readFlags with
      | .whole on => if first then turnWhole on; return none else refuse
      | .scoped on off =>
        let n ← readAlternatives fuel false false (m.turn on off)
        expect ')'
        return some (.group none n)
    | _ => some <$> readCapture fuel none m

def readCapture : (fuel : Nat) → (name : Option String) → Modes → Read Node
  | 0, _, _ => refuse
  | fuel + 1, name, m => do
    let group ← openGroup name
    let n ← readAlternatives fuel false false m
    expect ')'
    closeGroup group n
    return .group (some group) n

def readAhead : (fuel : Nat) → (negated : Bool) → Modes → Read Node
  | 0, _, _ => refuse
  | fuel + 1, negated, m => do
    let n ← readAlternatives fuel false false m
    expect ')'
    return .look true negated n

def readBehind : (fuel : Nat) → (negated : Bool) → Modes → Read Node
  | 0, _, _ => refuse
  | fuel + 1, negated, m => do
    let outer := (← get).behind
    modify fun p => { p with behind := some (outer.getD p.opened) }
    let n ← readAlternatives fuel false false m
    modify fun p => { p with behind := outer }
    expect ')'
    return .look false negated n

end

/-- Every step reads a character or goes one level down to one that does. -/
def readWhole : Read Node := do
  let n ← readAlternatives (4 * (← rest).length + 4) true true {}
  let p ← get
  if p.modes.ascii && p.unicode then throw .alphabetClash
  unless p.rest.isEmpty do refuse
  if p.asked.any (p.opened < ·) then refuse
  unless n.lookbehindsFixed do refuse
  if p.template && n.hasRepetition then refuse
  return n

def read (s : String) : Except ReadError Node :=
  (readWhole { rest := s.toList }).map (·.1)

def ReadError.message : ReadError → String
  | .malformed => "malformed pattern"
  | .repetitionTooLarge => "the repetition number is too large"
  | .hugeNumber digits => Number.tooLongMessage digits
  | .alphabetClash => "ASCII and UNICODE flags are incompatible"

end DocNavigation.Pattern
