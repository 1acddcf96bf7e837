import DocNavigation.Json.Basic
import DocNavigation.Number.Integer
import DocNavigation.Text.Hex

/-!
Reading JSON. A reader returns the value and the characters left; a refusal says what was expected
and how many characters were left, from which line, column and offset follow. Not-a-number and the
infinities are accepted by name, and of two equal keys the later value takes the earlier place.
-/

namespace DocNavigation.Json

inductive Expectation where
  | noByteOrderMark
  | value
  | propertyName
  | colon
  | comma
  | closingQuote
  | noControlCharacter
  | knownEscape
  | fourHexDigits
  | endOfText
deriving DecidableEq, Repr

/-- Where reading stopped: at unexpected text, or at a numeral with too many digits. -/
inductive Halt where
  | unexpected (wanted : Expectation) (left : Nat)
  | hugeInteger (digits : Nat)
deriving DecidableEq, Repr

inductive ReadError where
  | unexpected (wanted : Expectation) (line column offset : Nat)
  | hugeInteger (digits : Nat)
deriving DecidableEq, Repr

abbrev Reading (α : Type) := Except Halt (α × List Char)

def isSpace (c : Char) : Bool :=
  c = ' ' || c = '\t' || c = '\n' || c = '\r'

def skipSpace (cs : List Char) : List Char :=
  cs.dropWhile isSpace

def simpleEscape? : Char → Option Char
  | '"' => some '"'
  | '\\' => some '\\'
  | '/' => some '/'
  | 'b' => some '\x08'
  | 'f' => some '\x0c'
  | 'n' => some '\n'
  | 'r' => some '\r'
  | 't' => some '\t'
  | _ => none

def isHighSurrogate (n : Nat) : Bool := 0xd800 ≤ n && n ≤ 0xdbff
def isLowSurrogate (n : Nat) : Bool := 0xdc00 ≤ n && n ≤ 0xdfff

/-- A surrogate without its partner is no character and is read as the replacement character. -/
def charOfCode (n : Nat) : Char :=
  if 0xd800 ≤ n ∧ n ≤ 0xdfff then '\ufffd' else Char.ofNat n

def joinSurrogates (high low : Nat) : Char :=
  Char.ofNat (0x10000 + (high - 0xd800) * 0x400 + (low - 0xdc00))

/-- The character that an escape beginning with four hexadecimal digits stands for, and how many
characters it takes in all. Two escapes that spell a pair of surrogates make one character. -/
def unicodeEscape (cs : List Char) : Except Halt (Char × Nat) :=
  if cs.length ≤ 4 then .error (.unexpected .fourHexDigits (cs.length + 1))
  else match Text.hexNumber? (cs.take 4) with
    | none => .error (.unexpected .fourHexDigits (cs.length + 1))
    | some high =>
      match cs.drop 4 with
      | '\\' :: 'u' :: next =>
        if isHighSurrogate high && 4 < next.length then
          match Text.hexNumber? (next.take 4) with
          | none => .error (.unexpected .fourHexDigits (next.length + 1))
          | some low =>
            if isLowSurrogate low then .ok (joinSurrogates high low, 10)
            else .ok (charOfCode high, 4)
        else .ok (charOfCode high, 4)
      | _ => .ok (charOfCode high, 4)

/-- The text after an opening quote. `opening` is the number of characters left at that quote, and
`skip` the number of characters that an escape has already used up. -/
def stringBody (opening : Nat) : List Char → (skip : Nat) → List Char → Reading (List Char)
  | [], _, _ => .error (.unexpected .closingQuote opening)
  | _ :: rest, skip + 1, acc => stringBody opening rest skip acc
  | c :: rest, 0, acc =>
    if c = '"' then .ok (acc.reverse, rest)
    else if c = '\\' then
      match rest with
      | [] => .error (.unexpected .closingQuote opening)
      | e :: after =>
        if e = 'u' then
          match unicodeEscape after with
          | .error h => .error h
          | .ok (c, size) => stringBody opening rest (size + 1) (c :: acc)
        else match simpleEscape? e with
          | none => .error (.unexpected .knownEscape (after.length + 2))
          | some c => stringBody opening rest 1 (c :: acc)
    else if c.toNat < 0x20 then .error (.unexpected .noControlCharacter (rest.length + 1))
    else stringBody opening rest 0 (c :: acc)

def readString (rest : List Char) : Reading String :=
  (stringBody (rest.length + 1) rest 0 []).map fun (cs, rest) => (String.ofList cs, rest)

def isDigit (c : Char) : Bool := '0' ≤ c && c ≤ '9'

def digitsValue (cs : List Char) : Nat :=
  cs.foldl (fun n c => 10 * n + (c.toNat - 48)) 0

/-- The whole part of a numeral: a zero alone, or digits that do not begin with a zero. -/
def wholePart? : List Char → Option (List Char × List Char)
  | '0' :: rest => some (['0'], rest)
  | c :: rest => if isDigit c then some ((c :: rest).span isDigit) else none
  | [] => none

/-- The digits after a point; a point without digits does not belong to the numeral. -/
def fractionPart : List Char → List Char × List Char
  | '.' :: c :: rest => if isDigit c then (c :: rest).span isDigit else ([], '.' :: c :: rest)
  | cs => ([], cs)

def exponentDigits (negative : Bool) (cs : List Char) : Option (Int × List Char) :=
  match cs.span isDigit with
  | ([], _) => none
  | (ds, rest) => some (if negative then -(digitsValue ds : Int) else digitsValue ds, rest)

def exponentPart? : List Char → Option (Int × List Char)
  | e :: rest =>
    if e = 'e' ∨ e = 'E' then
      match rest with
      | '+' :: rest => exponentDigits false rest
      | '-' :: rest => exponentDigits true rest
      | rest => exponentDigits false rest
    else none
  | [] => none

def readMagnitude (negative : Bool) (left : Nat) (cs : List Char) : Reading Json :=
  match wholePart? cs with
  | none => .error (.unexpected .value left)
  | some (whole, rest) =>
    let (fraction, rest) := fractionPart rest
    let exponent := exponentPart? rest
    if fraction.isEmpty && exponent.isNone then
      if Number.maxDigits < whole.length then .error (.hugeInteger whole.length)
      else .ok (.int (if negative then -(digitsValue whole : Int) else digitsValue whole), rest)
    else
      let (power, rest) := exponent.getD (0, rest)
      .ok (.float (.ofDecimal negative (digitsValue (whole ++ fraction)) (power - fraction.length)),
        rest)

def readNumber (cs : List Char) : Reading Json :=
  match cs with
  | '-' :: rest => readMagnitude true cs.length rest
  | _ => readMagnitude false cs.length cs

def constants : List (String × Json) :=
  [("null", .null), ("true", .bool true), ("false", .bool false), ("NaN", .float .nan),
   ("Infinity", .float (.infinite false)), ("-Infinity", .float (.infinite true))]

def readConstant? (cs : List Char) : Option (Json × List Char) :=
  constants.findSome? fun (word, v) =>
    if word.toList.isPrefixOf cs then some (v, cs.drop word.length) else none

def readScalar (cs : List Char) : Reading Json :=
  match readConstant? cs with
  | some r => .ok r
  | none => readNumber cs

mutual

def readValue : (fuel : Nat) → List Char → Reading Json
  | 0, cs => .error (.unexpected .value cs.length)
  | fuel + 1, cs =>
    match cs with
    | '"' :: rest => (readString rest).map fun (s, rest) => (.str s, rest)
    | '[' :: rest =>
      match skipSpace rest with
      | ']' :: rest => .ok (.arr [], rest)
      | rest => readItems fuel rest []
    | '\x7b' :: rest =>
      match skipSpace rest with
      | '\x7d' :: rest => .ok (.obj [], rest)
      | rest => readFields fuel rest []
    | cs => readScalar cs

def readItems : (fuel : Nat) → List Char → List Json → Reading Json
  | 0, cs, _ => .error (.unexpected .value cs.length)
  | fuel + 1, cs, acc =>
    match readValue fuel cs with
    | .error h => .error h
    | .ok (v, rest) =>
      match skipSpace rest with
      | ']' :: rest => .ok (.arr (v :: acc).reverse, rest)
      | ',' :: rest => readItems fuel (skipSpace rest) (v :: acc)
      | rest => .error (.unexpected .comma rest.length)

def readFields : (fuel : Nat) → List Char → List (String × Json) → Reading Json
  | 0, cs, _ => .error (.unexpected .propertyName cs.length)
  | fuel + 1, cs, acc =>
    match cs with
    | '"' :: rest =>
      match readString rest with
      | .error h => .error h
      | .ok (key, rest) =>
        match skipSpace rest with
        | ':' :: rest =>
          match readValue fuel (skipSpace rest) with
          | .error h => .error h
          | .ok (v, rest) =>
            match skipSpace rest with
            | '\x7d' :: rest => .ok (.obj (putAll [] ((key, v) :: acc).reverse), rest)
            | ',' :: rest => readFields fuel (skipSpace rest) ((key, v) :: acc)
            | rest => .error (.unexpected .comma rest.length)
        | rest => .error (.unexpected .colon rest.length)
    | cs => .error (.unexpected .propertyName cs.length)

end

/-- Every step uses up a character, so the length of the text bounds their number. -/
def readDocument (cs : List Char) : Except Halt Json :=
  if cs.head? = some '\ufeff' then .error (.unexpected .noByteOrderMark cs.length)
  else
    let start := skipSpace cs
    match readValue (start.length + 1) start with
    | .error h => .error h
    | .ok (v, rest) =>
      match skipSpace rest with
      | [] => .ok v
      | rest => .error (.unexpected .endOfText rest.length)

/-- Lines and columns count from one, offsets from zero. -/
def Halt.locate (cs : List Char) : Halt → ReadError
  | .hugeInteger digits => .hugeInteger digits
  | .unexpected wanted left =>
    let offset := cs.length - left
    let before := cs.take offset
    let column := (before.reverse.takeWhile (· ≠ '\n')).length + 1
    .unexpected wanted (before.count '\n' + 1) column offset

def read (s : String) : Except ReadError Json :=
  (readDocument s.toList).mapError (·.locate s.toList)

def Expectation.message : Expectation → String
  | .noByteOrderMark => "Unexpected UTF-8 BOM (decode using utf-8-sig)"
  | .value => "Expecting value"
  | .propertyName => "Expecting property name enclosed in double quotes"
  | .colon => "Expecting ':' delimiter"
  | .comma => "Expecting ',' delimiter"
  | .closingQuote => "Unterminated string starting at"
  | .noControlCharacter => "Invalid control character at"
  | .knownEscape => "Invalid \\escape"
  | .fourHexDigits => "Invalid \\uXXXX escape"
  | .endOfText => "Extra data"

def ReadError.message : ReadError → String
  | .unexpected wanted line column offset =>
    s!"{wanted.message}: line {line} column {column} (char {offset})"
  | .hugeInteger digits => Number.tooLongMessage digits

end DocNavigation.Json
