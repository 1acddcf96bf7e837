import DocNavigation.CommandLine.Invocation

/-!
The settings that the arguments of a build give, over those of the settings file.
-/

namespace DocNavigation.BuildArguments

inductive UnitError where
  | noFolder (value : String)
  | repeated (name : String)
deriving DecidableEq, Repr

def UnitError.message : UnitError → String
  | .noFolder value => Messages.say "cli.errors.bad_unit" [("value", .str value)]
  | .repeated unit => Messages.say "cli.errors.duplicate_unit" [("name", .str unit)]

/-- A name and a folder around the first equals sign. -/
def unitSpec (value : String) : Except UnitError (String × String) :=
  match CommandLine.cutEquals value with
  | (name, some folder) =>
    if Text.trim name = "" ∨ Text.trim folder = "" then .error (.noFolder value)
    else .ok (Text.trim name, Text.trim folder)
  | (_, none) => .error (.noFolder value)

def addUnit (roots : List (String × String)) (value : String) :
    Except UnitError (List (String × String)) := do
  let (name, folder) ← unitSpec value
  if roots.any (·.1 = name) then throw (.repeated name)
  return roots ++ [(name, folder)]

def roots (a : BuildArguments) : Except UnitError (List (String × String)) :=
  a.units.foldlM addUnit []

def textOrNull : Option String → Json
  | some s => .str s
  | none => .null

/-- Null keeps the value of the file. -/
def overrides (a : BuildArguments) : Except UnitError (List (String × Json)) := do
  let roots ← a.roots
  let rootFields := roots.map fun (name, folder) => (name, Json.str folder)
  let listed := fun (value : Option String) (key : String) =>
    match value.filter (· ≠ "") with
    | some s => [(key, Json.strings (Text.commaSeparated s))]
    | none => []
  return (if a.units.isEmpty then [] else [("source_roots", .obj rootFields)])
    ++ [("output_path", textOrNull a.output),
        ("merge_with", (a.mergeWith.map Json.strings).getD .null),
        ("merge_priority", textOrNull a.priority),
        ("legacy_export_dir", textOrNull a.scriptFolder),
        ("max_workers", (a.workers.map Json.int).getD .null)]
    ++ listed a.extensions "extensions"
    ++ listed a.excluded "exclude_patterns"
    ++ (if a.noIgnored then [("respect_gitignore", .bool false)] else [])

/-- Puts what is given over the fields of the file. -/
def mergeFields (base overrides : List (String × Json)) : List (String × Json) :=
  Json.putAll base (overrides.filter fun (_, v) => v ≠ .null)

end DocNavigation.BuildArguments
