import DocNavigation.Json.Basic
import DocNavigation.Text.Quoted

/-!
Values as messages show them: quoted texts, capitalised constants, braces and brackets.
-/

namespace DocNavigation.Json

def messageSpelling : Number.Binary64.Spelling := ⟨"nan", "inf"⟩

mutual

def shown : Json → String
  | .null => "None"
  | .bool true => "True"
  | .bool false => "False"
  | .int n => toString n
  | .float x => x.text messageSpelling
  | .str s => Text.quoted s
  | .arr items => "[" ++ ", ".intercalate (shownItems items) ++ "]"
  | .obj fields => "\x7b" ++ ", ".intercalate (shownFields fields) ++ "\x7d"

def shownItems : List Json → List String
  | [] => []
  | v :: vs => shown v :: shownItems vs

def shownFields : List (String × Json) → List String
  | [] => []
  | (k, v) :: rest => (Text.quoted k ++ ": " ++ shown v) :: shownFields rest

end

/-- A text stands for itself, anything else is shown. -/
def plain : Json → String
  | .str s => s
  | v => shown v

end DocNavigation.Json
