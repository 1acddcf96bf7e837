import DocNavigation.CommandLine.Parse
import DocNavigation.Merge
import DocNavigation.Messages.Basic

/-!
The commands and their arguments.
-/

namespace DocNavigation.CommandLine

def program : String := "navindex"

def describe (key : String) : String :=
  Messages.builtIn.raw ("cli.args." ++ key) ""

def helpOption : OptionSpec :=
  ⟨["-h", "--help"], "help", .help, "", false, "show this help message and exit"⟩

def switch (spelling key message : String) : OptionSpec :=
  ⟨[spelling], key, .switch, "", false, describe message⟩

def taking (t : Taking) (spellings : List String) (key placeholder message : String) :
    OptionSpec :=
  ⟨spellings, key, t, placeholder, false, describe message⟩

def outputOption (key placeholder message : String) (required : Bool) : OptionSpec :=
  { taking .text ["-o", "--output"] key placeholder message with required := required }

def priorityWords : List String :=
  Priority.all.map Priority.word

def priorityOption : OptionSpec :=
  taking (.choice priorityWords) ["--priority"] "priority"
    ("\x7b" ++ Text.join "," priorityWords ++ "\x7d") "priority"

def dryRunOption : OptionSpec :=
  switch "--dry-run" "dry_run" "dry_run"

def jsonOption : OptionSpec :=
  switch "--json" "json_output" "json"

def place (key : String) (arity : Arity) (message : String) : PlaceSpec where
  key := key
  placeholder := key
  arity := arity
  description := describe message

def grammarOf (command : String) (places : List PlaceSpec) (options : List OptionSpec) :
    Grammar where
  program := program ++ " " ++ command
  places := places
  options := helpOption :: options

def buildGrammar : Grammar :=
  grammarOf "build" []
    [taking .texts ["-u", "--unit"] "units" "NAME=DIR" "unit",
     outputOption "output_path" "OUTPUT_PATH" "output" false,
     taking .texts ["--merge-with"] "merge_with" "ARTIFACT" "merge_with",
     priorityOption,
     taking .text ["--legacy-dir"] "legacy_export_dir" "LEGACY_EXPORT_DIR" "legacy_dir",
     taking .text ["--ext"] "extensions" "EXTENSIONS" "ext",
     taking .text ["--exclude"] "exclude_patterns" "EXCLUDE_PATTERNS" "exclude",
     switch "--no-gitignore" "no_gitignore" "no_gitignore",
     taking .integer ["--workers"] "max_workers" "MAX_WORKERS" "workers",
     dryRunOption,
     jsonOption]

def mergeGrammar : Grammar :=
  grammarOf "merge" [place "sources" .several "sources"]
    [outputOption "output_path" "OUTPUT_PATH" "output" true, priorityOption, dryRunOption,
     jsonOption]

def showGrammar : Grammar :=
  grammarOf "show" [place "artifact" .one "artifact", place "unit" .optional "unit_name"]
    [switch "--catalog" "catalog" "catalog", jsonOption]

def exportGrammar : Grammar :=
  grammarOf "export-legacy" [place "artifact" .one "artifact"]
    [outputOption "output_dir" "OUTPUT_DIR" "legacy_dir" true]

def importGrammar : Grammar :=
  grammarOf "import-legacy" [place "source_files" .one "source_files"]
    [taking .text ["--sidebar-dir"] "sidebar_dir" "SIDEBAR_DIR" "sidebar_dir",
     outputOption "output_path" "OUTPUT_PATH" "output" true]

/-- The commands by their words, with the keys of their descriptions. -/
def commands : List (String × String × Grammar) :=
  [("build", "build", buildGrammar), ("merge", "merge", mergeGrammar),
   ("show", "show", showGrammar), ("export-legacy", "export_legacy", exportGrammar),
   ("import-legacy", "import_legacy", importGrammar)]

def commandPlace : PlaceSpec where
  key := "command"
  placeholder := "COMMAND"
  arity := .command
  words := commands.map fun (word, message, _) => (word, describe message)

def mainGrammar : Grammar where
  program := program
  description := Messages.builtIn.raw "app.description" ""
  places := [commandPlace]
  options :=
    [helpOption,
     taking .text ["--config"] "config_path" "CONFIG_PATH" "config",
     switch "--debug" "debug" "debug",
     taking .text ["--log-file"] "log_file" "LOG_FILE" "log_file"]

end DocNavigation.CommandLine
