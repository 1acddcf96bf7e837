import DocNavigation.Json.Basic
import DocNavigation.Text.Hex

/-!
Writing JSON on one line with chosen separators, or indented. Only the quote, the backslash and the
control characters below U+0020 are escaped.
-/

namespace DocNavigation.Json

def numeralSpelling : Number.Binary64.Spelling := ⟨"NaN", "Infinity"⟩

def escapedChar (c : Char) : List Char :=
  if c = '"' then ['\\', '"']
  else if c = '\\' then ['\\', '\\']
  else if c = '\n' then ['\\', 'n']
  else if c = '\r' then ['\\', 'r']
  else if c = '\t' then ['\\', 't']
  else if c = '\x0c' then ['\\', 'f']
  else if c = '\x08' then ['\\', 'b']
  else if c.toNat < 0x20 then
    '\\' :: 'u' :: Text.hexDigits 4 c.toNat
  else [c]

def quotedString (s : String) : String :=
  String.ofList ('"' :: s.toList.flatMap escapedChar ++ ['"'])

structure Separators where
  item : String
  key : String

def compact : Separators := ⟨",", ":"⟩
def spaced : Separators := ⟨", ", ": "⟩

mutual

def write (sep : Separators) : Json → String
  | .null => "null"
  | .bool true => "true"
  | .bool false => "false"
  | .int n => toString n
  | .float x => x.text numeralSpelling
  | .str s => quotedString s
  | .arr items => "[" ++ sep.item.intercalate (writeItems sep items) ++ "]"
  | .obj fields => "\x7b" ++ sep.item.intercalate (writeFields sep fields) ++ "\x7d"

def writeItems (sep : Separators) : List Json → List String
  | [] => []
  | v :: vs => write sep v :: writeItems sep vs

def writeFields (sep : Separators) : List (String × Json) → List String
  | [] => []
  | (k, v) :: rest => (quotedString k ++ sep.key ++ write sep v) :: writeFields sep rest

end

def newline (depth : Nat) : String :=
  String.ofList ('\n' :: List.replicate depth ' ')

/-- A bracketed block with every part on a line of its own. -/
def block (opening closing : String) (step depth : Nat) (parts : List String) : String :=
  match parts with
  | [] => opening ++ closing
  | _ =>
    opening ++ newline (depth + step) ++ ("," ++ newline (depth + step)).intercalate parts
      ++ newline depth ++ closing

mutual

/-- Writes with `step` more spaces at every level. -/
def writeIndented (step depth : Nat) : Json → String
  | .arr items => block "[" "]" step depth (indentedItems step (depth + step) items)
  | .obj fields => block "\x7b" "\x7d" step depth (indentedFields step (depth + step) fields)
  | .null => "null"
  | .bool true => "true"
  | .bool false => "false"
  | .int n => toString n
  | .float x => x.text numeralSpelling
  | .str s => quotedString s

def indentedItems (step depth : Nat) : List Json → List String
  | [] => []
  | v :: vs => writeIndented step depth v :: indentedItems step depth vs

def indentedFields (step depth : Nat) : List (String × Json) → List String
  | [] => []
  | (k, v) :: rest =>
    (quotedString k ++ ": " ++ writeIndented step depth v) :: indentedFields step depth rest

end

end DocNavigation.Json
