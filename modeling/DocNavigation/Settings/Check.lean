import DocNavigation.Json.Shown
import DocNavigation.Number.Integer
import DocNavigation.Number.Power
import DocNavigation.Settings.Basic
import DocNavigation.Text.Case

/-!
Checking settings that people wrote. A lenient check replaces what is wrong and warns of it; a
strict one stops at the first thing that is wrong.
-/

namespace DocNavigation

/-- What can be wrong with settings. -/
inductive Finding where
  | notObject (kind : String)
  | notText (field kind : String)
  | notSwitch (field kind : String)
  | notCount (field : String) (value : Json)
  | notTexts (field kind : String)
  | itemNotText (field kind : String)
  | rootsNotObject (kind : String)
  | root (name : String) (value : Json)
  | priority (word : String)
deriving DecidableEq, Repr

inductive Warning where
  | replaced (f : Finding)
  | numberToSwitch (field : String) (value : Json)
  | textToSwitch (field value : String) (on : Bool)
  | textToCount (field value : String)
deriving DecidableEq, Repr

inductive SettingError where
  | finding (f : Finding)
  | integer (e : Number.IntegerError) (text : String)
  | path (e : PathError)
deriving DecidableEq, Repr

/-- A check gathers warnings and can stop. -/
abbrev Judging := StateT (List Warning) (Except SettingError)

namespace Settings

def warn (w : Warning) : Judging Unit :=
  modify (· ++ [w])

/-- Stops, or warns and goes on with a replacement. -/
def fault (strict : Bool) (f : Finding) (replacement : α) : Judging α := do
  if strict then throw (.finding f)
  warn (.replaced f)
  return replacement

def checkText (strict : Bool) (field fallback : String) (v : Option Json) : Judging String :=
  match v with
  | none | some .null => pure fallback
  | some (.str s) => pure (Text.trim s)
  | some v => fault strict (.notText field v.kind) fallback

def switchWords : List (String × Bool) :=
  [("true", true), ("1", true), ("yes", true), ("y", true), ("on", true),
   ("false", false), ("0", false), ("no", false), ("n", false), ("off", false)]

/-- Zero or one, whole or not. -/
def bit? : Json → Option Bool
  | .int n => if n = 0 then some false else if n = 1 then some true else none
  | .float x =>
    match x with
    | .finite negative m e =>
      if m = 0 then some false
      else if !negative ∧ e ≤ 0 ∧ m = Number.twoTo (-e).toNat then some true
      else none
    | _ => none
  | _ => none

def checkSwitch (strict : Bool) (field : String) (fallback : Bool) (v : Option Json) :
    Judging Bool :=
  match v with
  | none | some .null => pure fallback
  | some (.bool b) => pure b
  | some v =>
    let fail := fault strict (.notSwitch field v.kind) fallback
    if strict then fail
    else match bit? v with
      | some b => do warn (.numberToSwitch field v); return b
      | none =>
        match v with
        | .str s =>
          match Json.getKey? switchWords (Text.lowerAscii (Text.trim s)) with
          | some b => do warn (.textToSwitch field s b); return b
          | none => fail
        | _ => fail

def isDigits (s : String) : Bool :=
  s ≠ "" && s.toList.all Text.isDigitLike

/-- Whole numbers from zero on; a lenient check reads digits too. -/
def checkCount (strict : Bool) (field : String) (fallback : Nat) (v : Option Json) : Judging Nat :=
  match v with
  | none | some .null => pure fallback
  | some (.int (.ofNat n)) => pure n
  | some (.str s) =>
    let text := Text.trim s
    if !strict && isDigits text then do
      warn (.textToCount field s)
      match Number.readInteger text with
      | .ok n => return n.toNat
      | .error e => throw (.integer e text)
    else fault strict (.notCount field (.str s)) fallback
  | some v => fault strict (.notCount field v) fallback

def checkItem (strict : Bool) (field : String) (v : Json) : Judging (List String) :=
  match v with
  | .str s =>
    let s := Text.trim s
    pure (if s = "" then [] else [s])
  | v => fault strict (.itemNotText field v.kind) []

/-- A list of texts, or one text that commas divide. -/
def checkTexts (strict : Bool) (field : String) (fallback : List String) (v : Option Json) :
    Judging (List String) :=
  match v with
  | none | some .null => pure fallback
  | some (.str s) => pure (Text.commaSeparated s)
  | some (.arr items) => return (← items.mapM (checkItem strict field)).flatten
  | some v => fault strict (.notTexts field v.kind) fallback

def located (env : Environment) (text fallback : String) : Judging String :=
  match Path.resolve env text fallback with
  | .ok path => pure path
  | .error e => throw (.path e)

def checkRoot (env : Environment) (strict : Bool) (roots : List (String × String))
    (entry : String × Json) : Judging (List (String × String)) :=
  let name := Text.trim entry.1
  match entry.2 with
  | .str path =>
    if name = "" ∨ Text.trim path = "" then fault strict (.root entry.1 entry.2) roots
    else return Json.put roots name (← located env path env.workdir)
  | _ => fault strict (.root entry.1 entry.2) roots

def checkRoots (env : Environment) (strict : Bool) (v : Option Json) :
    Judging (List (String × String)) :=
  match v with
  | none | some .null => pure []
  | some (.obj fields) => fields.foldlM (checkRoot env strict) []
  | some v => fault strict (.rootsNotObject v.kind) []

def withDot (extension : String) : String :=
  if Text.startsWith "." extension then extension else "." ++ extension

/-- Every extension begins with a dot and occurs once. -/
def dotted (extensions : List String) : List String :=
  (extensions.map withDot).eraseDups

/-- A folder that need not be given. -/
def locatedFolder (env : Environment) (text : String) : Judging String :=
  if text = "" then pure "" else located env text ""

/-- Web addresses stay as they are. -/
def locatedSource (env : Environment) (source : String) : Judging String :=
  if Path.isRemote source then pure source else located env source source

def checkPriority (strict : Bool) (word : String) : Judging Priority :=
  match Priority.ofString? word with
  | some p => pure p
  | none => fault strict (.priority word) .lastWins

def checkFields (env : Environment) (strict : Bool) (fields : List (String × Json)) :
    Judging Settings := do
  let u := usual env.workdir
  let field := Json.getKey? fields
  let output ← checkText strict "output_path" u.outputPath (field "output_path")
  let scripts ← checkText strict "legacy_export_dir" "" (field "legacy_export_dir")
  let logLevel ← checkText strict "log_level" u.logLevel (field "log_level")
  let logFile ← checkText strict "log_file" u.logFile (field "log_file")
  let priority ← checkText strict "merge_priority" u.priority.word (field "merge_priority")
  let respect ← checkSwitch strict "respect_gitignore" true (field "respect_gitignore")
  let workers ← checkCount strict "max_workers" 0 (field "max_workers")
  let extensions ← checkTexts strict "extensions" u.extensions (field "extensions")
  let included ← checkTexts strict "include_patterns" u.included (field "include_patterns")
  let excluded ← checkTexts strict "exclude_patterns" u.excluded (field "exclude_patterns")
  let mergeWith ← checkTexts strict "merge_with" [] (field "merge_with")
  let roots ← checkRoots env strict (field "source_roots")
  let output ← located env output u.outputPath
  let scripts ← locatedFolder env scripts
  let mergeWith ← mergeWith.mapM (locatedSource env)
  let priority ← checkPriority strict priority
  return {
    sourceRoots := roots
    outputPath := output
    scriptFolder := scripts
    mergeWith := mergeWith
    priority := priority
    extensions := dotted extensions
    included := included
    excluded := excluded
    respectIgnored := respect
    workers := workers
    logLevel := logLevel
    logFile := logFile
    others := fields.filter fun (key, _) => (Json.getKey? u.knownFields key).isNone }

/-- Settings for any value: one that is no object gives the usual ones. -/
def check (env : Environment) (strict : Bool) (config : Json) :
    Except SettingError (Settings × List Warning) :=
  match config with
  | .obj fields => (checkFields env strict fields).run []
  | v => (fault strict (.notObject v.kind) (usual env.workdir)).run []

end Settings

def Finding.message : Finding → String
  | .notObject kind => s!"Invalid config type: expected dict, received {kind}."
  | .notText field kind => s!"Invalid field '{field}': expected str, received {kind}."
  | .notSwitch field kind => s!"Invalid field '{field}': expected bool, received {kind}."
  | .notCount field value =>
    s!"Invalid field '{field}': expected non-negative int, received {value.shown}."
  | .notTexts field kind => s!"Invalid field '{field}': expected list of str, received {kind}."
  | .itemNotText field kind => s!"Invalid item in '{field}': expected str, received {kind}."
  | .rootsNotObject kind => s!"Invalid field 'source_roots': expected mapping, received {kind}."
  | .root unit value => s!"Invalid source root entry {Text.quoted unit}: {value.shown}."
  | .priority word =>
    s!"Invalid field 'merge_priority': '{word}' is not one of {Priority.choices}."

/-- What a lenient check does about a finding. -/
def Finding.remedy : Finding → String
  | .notObject _ => "Using defaults."
  | .itemNotText .. => "Item dropped."
  | .rootsNotObject _ => "Ignored."
  | .root .. => "Entry dropped."
  | .priority _ => s!"Using '{Priority.lastWins.word}'."
  | _ => "Using fallback."

def Warning.message : Warning → String
  | .replaced f => f.message ++ " " ++ f.remedy
  | .numberToSwitch field value => s!"Field '{field}' converted from number {value.shown} to bool."
  | .textToSwitch field value on =>
    s!"Field '{field}' converted from '{value}' to {(Json.bool on).shown}."
  | .textToCount field value => s!"Field '{field}' converted from '{value}' to int."

namespace SettingError

/-- What is to blame: the type of a value, or a value that will not do. -/
inductive Blame where
  | type
  | value
deriving DecidableEq, Repr

def blame : SettingError → Blame
  | .finding (.root ..) | .finding (.priority _) | .integer .. | .path _ => .value
  | .finding _ => .type

def message : SettingError → String
  | .finding f => f.message
  | .integer e text => e.message text
  | .path e => e.message

end SettingError

end DocNavigation
