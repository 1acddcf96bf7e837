import DocNavigation.Disk.Text
import DocNavigation.Host
import DocNavigation.Json.Read
import DocNavigation.Messages.English
import DocNavigation.Template.Render

/-!
Texts by dotted keys. A key without a text stands for itself or for a default, and a text whose
fields cannot be filled is shown as it is.
-/

namespace DocNavigation

structure Messages where
  table : Json := .obj []
  isLoaded : Bool := false
deriving DecidableEq, Repr

namespace Messages

def home : String := "/LOCALES"

def usualLocale : String := "en"

def pathOf (locale : String) : String :=
  Path.join home (locale ++ ".json")

/-- The English messages come with the program. -/
def isBuiltIn (path : String) : Bool :=
  Path.normal path = pathOf usualLocale

def builtIn : Messages where
  table := english
  isLoaded := true

def lookup : Json → (keys : List String) → Option Json
  | v, [] => some v
  | v, k :: ks => (v.get? k).bind (lookup · ks)

/-- The text of a key before any filling. -/
def raw (m : Messages) (key default : String) : String :=
  match lookup m.table (Text.split '.' key) with
  | some (.str s) => s
  | _ => if default = "" then key else default

/-- The text with its fields filled in, and a note if that failed. -/
def fill (key text : String) (args : List (String × Json)) :
    Except TemplateError (String × List Note) :=
  if args.isEmpty then .ok (text, [])
  else match Template.render args text with
    | .ok s => .ok (s, [])
    | .error e =>
      match e.blame? with
      | some _ => .error e
      | none => .ok (text, [.debug s!"I18n: Formatting error for '{key}': {e.message}"])

def text (m : Messages) (key default : String) (args : List (String × Json)) :
    Except TemplateError (String × List Note) :=
  fill key (m.raw key default) args

def parse (text : String) (path : String) : Except String Messages :=
  match Json.read text with
  | .ok v => .ok ⟨v, true⟩
  | .error e => .error s!"I18n: Corruption in locale file {path}: {e.message}"

def loadFile (d : Disk) (path : String) : Except String Messages :=
  match d.readText path with
  | .ok text => parse text path
  | .error e => .error s!"I18n: Corruption in locale file {path}: {e.message}"

/-- The messages of a locale, none if there is no readable file for it. -/
def load (locale : String) : Act Messages := do
  let path := pathOf locale
  let d ← Act.disk
  let loaded := Note.debug s!"I18n: Loaded locale dictionary: {locale}"
  if isBuiltIn path then
    Act.note loaded
    return builtIn
  if !d.isThere path then
    Act.note (.warning s!"I18n: Locale resource missing at '{path}'. Fallback active.")
    return {}
  match loadFile d path with
  | .ok m =>
    Act.note loaded
    return m
  | .error message =>
    Act.note (.error message)
    return {}

/-- An English text. -/
def say (key : String) (args : List (String × Json)) : String :=
  match builtIn.text key "" args with
  | .ok (s, _) => s
  | .error _ => key

end Messages

end DocNavigation
