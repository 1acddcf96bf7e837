import DocNavigation.Json.Basic
import DocNavigation.Merge
import DocNavigation.Path.Expand

/-!
Build settings, and their form as a JSON object. Keys that mean nothing to a build are kept.
-/

namespace DocNavigation

structure Settings where
  /-- Unit names and the folders of their sources. -/
  sourceRoots : List (String × String)
  outputPath : String
  scriptFolder : String
  mergeWith : List String
  priority : Priority
  extensions : List String
  included : List String
  excluded : List String
  respectIgnored : Bool
  workers : Nat
  logLevel : String
  logFile : String
  others : List (String × Json)
deriving DecidableEq, Repr

namespace Settings

def artifactName : String := "navigation.jsonl"

def usualExtensions : List String := [".rs"]

def usualIncluded : List String := [".*"]

/-- Build output, version control data and hidden entries. -/
def usualExcluded : List String :=
  ["^(target|__pycache__|\\.git|\\.idea|\\.vscode|node_modules)$", "^\\."]

def usual (workdir : String) : Settings where
  sourceRoots := []
  outputPath := Path.join workdir artifactName
  scriptFolder := ""
  mergeWith := []
  priority := .lastWins
  extensions := usualExtensions
  included := usualIncluded
  excluded := usualExcluded
  respectIgnored := true
  workers := 0
  logLevel := "INFO"
  logFile := ""
  others := []

def knownFields (s : Settings) : List (String × Json) :=
  [("source_roots", .obj (s.sourceRoots.map fun (name, path) => (name, .str path))),
   ("output_path", .str s.outputPath),
   ("legacy_export_dir", .str s.scriptFolder),
   ("merge_with", .strings s.mergeWith),
   ("merge_priority", .str s.priority.word),
   ("extensions", .strings s.extensions),
   ("include_patterns", .strings s.included),
   ("exclude_patterns", .strings s.excluded),
   ("respect_gitignore", .bool s.respectIgnored),
   ("max_workers", .int s.workers),
   ("log_level", .str s.logLevel),
   ("log_file", .str s.logFile)]

def toFields (s : Settings) : List (String × Json) :=
  s.knownFields ++ s.others

def toJson (s : Settings) : Json :=
  .obj s.toFields

end Settings

end DocNavigation
