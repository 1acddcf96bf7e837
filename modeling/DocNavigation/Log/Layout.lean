import DocNavigation.Json.Shown
import DocNavigation.Log.Moment
import DocNavigation.Note
import DocNavigation.Pattern.Read
import DocNavigation.Pattern.Search

/-!
Layouts of log lines: text with slots such as `%(message)s`, each filled from a record. A slot can
ask for a width, and a doubled percent sign stands for itself.
-/

namespace DocNavigation

structure LogRecord where
  logger : String
  note : Note
  moment : Moment := {}
deriving DecidableEq, Repr

structure LogLayout where
  line : String
  moment : String := Moment.usualLayout
deriving DecidableEq, Repr

namespace LogLayout

def usualLine : String := "%(message)s"

/-- A line shows something of its record: it has at least one slot. -/
def slotPattern : String := "(?i)%\\(\\w+\\)[#0+ -]*(\\*|\\d+)?(\\.(\\*|\\d+))?[diouxefgcrsa%]"

def hasSlot (line : String) : Bool :=
  match Pattern.read slotPattern with
  | .ok n => n.found line
  | .error _ => false

/-- A layout for lines, or none if no slot is in it. -/
def ofText? (line moment : String) : Option LogLayout :=
  let line := if line = "" then usualLine else line
  if hasSlot line then some ⟨line, moment⟩ else none

def field? (l : LogLayout) (r : LogRecord) (name : String) : Option Json :=
  if name = "message" ∨ name = "msg" then some (.str r.note.message)
  else if name = "levelname" then some (.str (Note.levelName r.note.level))
  else if name = "levelno" then some (.int r.note.level)
  else if name = "name" then some (.str r.logger)
  else if name = "threadName" then some (.str "MainThread")
  else if name = "processName" then some (.str "MainProcess")
  else if name = "asctime" then some (.str (r.moment.shown l.moment))
  else none

structure Slot where
  name : String
  flags : List Char
  width : Nat
  precision : Option Nat
  code : Char
deriving DecidableEq, Repr

namespace Slot

def isDigit (c : Char) : Bool :=
  '0' ≤ c && c ≤ '9'

def number (cs : List Char) : Nat × List Char :=
  let digits := cs.takeWhile isDigit
  (digits.foldl (fun n d => 10 * n + (d.toNat - '0'.toNat)) 0, cs.drop digits.length)

/-- The slot that begins after a percent sign and its opening bracket, and what follows it. -/
def read (cs : List Char) : Option (Slot × List Char) :=
  let name := cs.takeWhile (· ≠ ')')
  let cs := cs.drop (name.length + 1)
  let flags := cs.takeWhile fun c => "#0- +".toList.contains c
  let (width, cs) := number (cs.drop flags.length)
  let (precision, cs) := match cs with
    | '.' :: cs => let (n, cs) := number cs; (some n, cs)
    | cs => (none, cs)
  match cs with
  | code :: rest => some (⟨String.ofList name, flags, width, precision, code⟩, rest)
  | [] => none

/-- Spaces or zeros are put before a value, or spaces after it. -/
def pad (s : Slot) (zeros : Bool) (front body : List Char) : List Char :=
  let missing := s.width - (front.length + body.length)
  if s.flags.contains '-' then front ++ body ++ List.replicate missing ' '
  else if zeros && s.flags.contains '0' then front ++ List.replicate missing '0' ++ body
  else List.replicate missing ' ' ++ front ++ body

def text (s : Slot) (value : String) : List Char :=
  let cs := value.toList
  s.pad false [] (match s.precision with | none => cs | some n => cs.take n)

def integer (s : Slot) (n : Int) : List Char :=
  let sign :=
    if n < 0 then ['-']
    else if s.flags.contains '+' then ['+']
    else if s.flags.contains ' ' then [' ']
    else []
  s.pad true sign (Moment.digits (s.precision.getD 1) n.natAbs)

def fill (s : Slot) (v : Json) : Option (List Char) :=
  match s.code, v with
  | 's', v => some (s.text v.plain)
  | 'r', v => some (s.text v.shown)
  | 'd', .int n | 'i', .int n | 'u', .int n => some (s.integer n)
  | _, _ => none

end Slot

/-- The line for a record, or none if a slot cannot be filled. -/
def fill (l : LogLayout) (r : LogRecord) : (fuel : Nat) → List Char → Option (List Char)
  | _, [] => some []
  | 0, _ => some []
  | fuel + 1, '%' :: '%' :: rest => (l.fill r fuel rest).map ('%' :: ·)
  | fuel + 1, '%' :: '(' :: rest => do
    let (slot, rest) ← Slot.read rest
    let cs ← slot.fill (← l.field? r slot.name)
    return cs ++ (← l.fill r fuel rest)
  | _, '%' :: _ => none
  | fuel + 1, c :: rest => (l.fill r fuel rest).map (c :: ·)

def render (l : LogLayout) (r : LogRecord) : Option String :=
  (l.fill r (l.line.length + 1) l.line.toList).map String.ofList

end LogLayout

end DocNavigation
