import DocNavigation.Number.Integer
import DocNavigation.Number.Power
import DocNavigation.Template.Error

/-!
Specifications of how a value is laid out: filling, sign, width, separators, precision and kind.
-/

namespace DocNavigation

inductive Align where
  | left
  | right
  | center
  | afterSign
deriving DecidableEq, Repr

structure Spec where
  fill : Char := ' '
  align : Align
  sign : Option Char := none
  plainZero : Bool := false
  alternate : Bool := false
  width : Option Nat := none
  separator : Option Char := none
  precision : Option Nat := none
  code : Option Char := none
deriving DecidableEq, Repr

namespace Spec

def align? (c : Char) : Option Align :=
  if c = '<' then some .left
  else if c = '>' then some .right
  else if c = '^' then some .center
  else if c = '=' then some .afterSign
  else none

/-- No number in a template is larger. -/
def maxNumber : Nat := Number.twoTo 63 - 1

/-- The number at the front, if there is a digit. -/
def number? (cs : List Char) : Except TemplateError (Option Nat × List Char) :=
  let digits := cs.takeWhile Text.isDecimal
  let n := Number.valueOfDigits (digits.filterMap Text.decimalValue?)
  if digits.isEmpty then .ok (none, cs)
  else if maxNumber < n then .error .tooManyDigits
  else .ok (some n, cs.drop digits.length)

def take? (c : Char) (cs : List Char) : Bool × List Char :=
  if cs.head? = some c then (true, cs.tail) else (false, cs)

/-- The filling, if it is given, the alignment, if it is given, and the rest. -/
def fillAndAlign (cs : List Char) : Option Char × Option Align × List Char :=
  match cs with
  | c :: d :: rest =>
    match align? d, align? c with
    | some a, _ => (some c, some a, rest)
    | none, some a => (none, some a, d :: rest)
    | none, none => (none, none, cs)
  | [c] =>
    match align? c with
    | some a => (none, some a, [])
    | none => (none, none, cs)
  | [] => (none, none, [])

def separatorOf (cs : List Char) : Except TemplateError (Option Char × List Char) :=
  let (comma, cs) := take? ',' cs
  let (underscore, cs) := take? '_' cs
  if underscore && (comma || cs.head? = some ',') then .error .bothSeparators
  else .ok (if comma then some ',' else if underscore then some '_' else none, cs)

def precisionOf (cs : List Char) : Except TemplateError (Option Nat × List Char) :=
  match cs with
  | '.' :: cs => do
    match ← number? cs with
    | (none, _) => throw .noPrecision
    | r => return r
  | cs => .ok (none, cs)

/-- Separators suit decimal numbers; underscores also suit the other bases. -/
def suits (separator : Char) (code : Option Char) : Bool :=
  match code with
  | none => true
  | some c =>
    "defgEG%F".toList.contains c || (separator = '_' && "boxX".toList.contains c)

/-- Reads a specification for a value of a kind, whose usual alignment is given. -/
def read (text kind : String) (usual : Align) : Except TemplateError Spec := do
  let (fill, align, cs) := fillAndAlign text.toList
  let (sign, cs) := match cs with
    | c :: rest => if c = ' ' ∨ c = '+' ∨ c = '-' then (some c, rest) else (none, cs)
    | [] => (none, cs)
  let (plainZero, cs) := take? 'z' cs
  let (alternate, cs) := take? '#' cs
  let (zero, cs) := if fill.isNone then take? '0' cs else (false, cs)
  let (width, cs) ← number? cs
  let (separator, cs) ← separatorOf cs
  let (precision, cs) ← precisionOf cs
  let code ← match cs with
    | [] => pure none
    | [c] => pure (some c)
    | _ => throw (.badSpec text kind)
  match separator with
  | some s =>
    let code := if code.isNone && kind = "str" then some 's' else code
    if !suits s code then throw (.separatorWith s (code.getD ' '))
  | none => pure ()
  return {
    fill := fill.getD (if zero then '0' else ' ')
    align := align.getD (if zero && usual = .right then .afterSign else usual)
    sign := sign
    plainZero := plainZero
    alternate := alternate
    width := width
    separator := separator
    precision := precision
    code := code }

def filling (s : Spec) (size : Nat) : List Char :=
  List.replicate size s.fill

/-- Pads to the width; `front` stays before what fills after a sign. -/
def pad (s : Spec) (front body : List Char) : List Char :=
  let missing := s.width.getD 0 - (front.length + body.length)
  match s.align with
  | .left => front ++ body ++ s.filling missing
  | .right => s.filling missing ++ front ++ body
  | .center => s.filling (missing / 2) ++ front ++ body ++ s.filling (missing - missing / 2)
  | .afterSign => front ++ s.filling missing ++ body

/-- Lays out a text, of which at most `precision` characters are kept. -/
def text (s : Spec) (value : String) : Except TemplateError String := do
  match s.code with
  | none | some 's' => pure ()
  | some c => throw (.unknownCode c "str")
  match s.sign with
  | none => pure ()
  | some ' ' => throw .spaceInText
  | some _ => throw .signOfText
  if s.plainZero then throw (.negativeZero "string")
  if s.alternate then throw .alternateText
  if s.align = .afterSign then throw .equalsInText
  let cs := value.toList
  return String.ofList (s.pad [] (match s.precision with | none => cs | some n => cs.take n))

end Spec

end DocNavigation
