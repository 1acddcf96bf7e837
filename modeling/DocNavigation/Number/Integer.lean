import DocNavigation.Text.Blank
import DocNavigation.Text.Digit
import DocNavigation.Text.Quoted

/-!
Whole numbers spelled by people: white space around them, a sign, digits of any script, and single
underscores between digits.
-/

namespace DocNavigation.Number

/-- Digits with at most one underscore between two of them; `afterDigit` tells what came last. -/
def groupedDigits? : List Char → (afterDigit : Bool) → (acc : List Nat) → Option (List Nat)
  | [], afterDigit, acc => if afterDigit then some acc.reverse else none
  | c :: rest, afterDigit, acc =>
    if c = '_' then (if afterDigit then groupedDigits? rest false acc else none)
    else match Text.decimalValue? c with
      | some d => groupedDigits? rest true (d :: acc)
      | none => none

def valueOfDigits (digits : List Nat) : Nat :=
  digits.foldl (fun n d => 10 * n + d) 0

inductive IntegerError where
  | notANumber
  | tooLong (digits : Nat)
deriving DecidableEq, Repr

/-- Longer numerals are refused. -/
def maxDigits : Nat := 4300

def readInteger (s : String) : Except IntegerError Int :=
  let cs := Text.trimRight (Text.trimLeft s.toList)
  let (negative, cs) := match cs with
    | '-' :: rest => (true, rest)
    | '+' :: rest => (false, rest)
    | cs => (false, cs)
  match groupedDigits? cs false [] with
  | none => .error .notANumber
  | some digits =>
    if maxDigits < digits.length then .error (.tooLong digits.length)
    else .ok (if negative then -(valueOfDigits digits : Int) else valueOfDigits digits)

def tooLongMessage (digits : Nat) : String :=
  s!"Exceeds the limit ({maxDigits} digits) for integer string conversion: value has "
    ++ s!"{digits} digits; use sys.set_int_max_str_digits() to increase the limit"

/-- The message about a text; of a long one only the beginning is shown. -/
def IntegerError.message (text : String) : IntegerError → String
  | .notANumber =>
    "invalid literal for int() with base 10: " ++ String.ofList ((Text.quoted text).toList.take 200)
  | .tooLong digits => tooLongMessage digits

end DocNavigation.Number
