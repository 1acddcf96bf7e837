import DocNavigation.CommandLine.Commands

/-!
Command lines understood: the global flags and one command with its arguments.
-/

namespace DocNavigation

structure BuildArguments where
  units : List String := []
  output : Option String := none
  mergeWith : Option (List String) := none
  priority : Option String := none
  scriptFolder : Option String := none
  extensions : Option String := none
  excluded : Option String := none
  noIgnored : Bool := false
  workers : Option Int := none
  dryRun : Bool := false
  asJson : Bool := false
deriving DecidableEq, Repr

structure MergeArguments where
  sources : List String
  output : String
  priority : String
  dryRun : Bool
  asJson : Bool
deriving DecidableEq, Repr

structure ShowArguments where
  artifact : String
  unit : Option String
  withCatalog : Bool
  asJson : Bool
deriving DecidableEq, Repr

structure ExportArguments where
  artifact : String
  folder : String
deriving DecidableEq, Repr

structure ImportArguments where
  script : String
  sidebars : Option String
  output : String
deriving DecidableEq, Repr

inductive Command where
  | build (a : BuildArguments)
  | merge (a : MergeArguments)
  | «show» (a : ShowArguments)
  | exportScripts (a : ExportArguments)
  | importScripts (a : ImportArguments)
deriving DecidableEq, Repr

structure Invocation where
  configPath : Option String
  debug : Bool
  logFile : Option String
  command : Command
deriving DecidableEq, Repr

/-- What a command line comes to when it asks for nothing to be done. -/
inductive Exit where
  | help (text : String)
  | refused (text : String)
deriving DecidableEq, Repr

namespace CommandLine

def text? (values : List (String × Value)) (key : String) : Option String :=
  match Json.getKey? values key with
  | some (.text s) => some s
  | _ => none

def texts? (values : List (String × Value)) (key : String) : Option (List String) :=
  match Json.getKey? values key with
  | some (.texts items) => some items
  | _ => none

def integer? (values : List (String × Value)) (key : String) : Option Int :=
  match Json.getKey? values key with
  | some (.integer n) => some n
  | _ => none

def isOn (values : List (String × Value)) (key : String) : Bool :=
  (Json.getKey? values key).isSome

def commandOf (word : String) (v : List (String × Value)) : Command :=
  if word = "build" then
    .build
      { units := (texts? v "units").getD []
        output := text? v "output_path"
        mergeWith := texts? v "merge_with"
        priority := text? v "priority"
        scriptFolder := text? v "legacy_export_dir"
        extensions := text? v "extensions"
        excluded := text? v "exclude_patterns"
        noIgnored := isOn v "no_gitignore"
        workers := integer? v "max_workers"
        dryRun := isOn v "dry_run"
        asJson := isOn v "json_output" }
  else if word = "merge" then
    .merge
      { sources := (texts? v "sources").getD []
        output := (text? v "output_path").getD ""
        priority := (text? v "priority").getD Priority.lastWins.word
        dryRun := isOn v "dry_run"
        asJson := isOn v "json_output" }
  else if word = "show" then
    .show
      { artifact := (text? v "artifact").getD ""
        unit := text? v "unit"
        withCatalog := isOn v "catalog"
        asJson := isOn v "json_output" }
  else if word = "export-legacy" then
    .exportScripts ⟨(text? v "artifact").getD "", (text? v "output_dir").getD ""⟩
  else
    .importScripts
      ⟨(text? v "source_files").getD "", text? v "sidebar_dir", (text? v "output_path").getD ""⟩

def exitOf (g : Grammar) : Halt → Exit
  | .help => .help g.help
  | .refused e => .refused (g.refusalText e)

/-- The command's words are read by its own grammar; words that nobody takes are reported last. -/
def understand (words : List String) : Except Exit Invocation := do
  let p ← (parse mainGrammar words).mapError (exitOf mainGrammar)
  match texts? p.values "command" with
  | some (word :: rest) =>
    let g := ((commands.find? (·.1 = word)).map (·.2.2)).getD mainGrammar
    let q ← (parse g rest).mapError (exitOf g)
    let extras := p.extras ++ q.extras
    if extras ≠ [] then throw (.refused (mainGrammar.refusalText (.unknown extras)))
    return {
      configPath := text? p.values "config_path"
      debug := isOn p.values "debug"
      logFile := text? p.values "log_file"
      command := commandOf word q.values }
  | _ => throw (.refused (mainGrammar.refusalText (.missing [commandPlace.placeholder])))

end CommandLine

end DocNavigation
