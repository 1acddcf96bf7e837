import DocNavigation.Json.Basic
import DocNavigation.Scan
import DocNavigation.Settings.Basic

/-!
What a build is to do, and the results of builds and merges. Failures that were isolated stand beside
the result and do not spoil it.
-/

namespace DocNavigation

structure Plan where
  roots : List (String × String) := []
  mergeWith : List String := []
  scan : ScanOptions := {}
  /-- The size of the pool of workers; none lets the pool decide. -/
  workers : Option Int := none
  priority : String := Priority.lastWins.word
  output : Option String := none
  scriptFolder : String := ""
deriving DecidableEq, Repr

namespace Plan

def ofSettings (s : Settings) : Plan where
  roots := s.sourceRoots
  mergeWith := s.mergeWith
  scan := ⟨some s.extensions, some s.included, some s.excluded, s.respectIgnored⟩
  workers := if s.workers = 0 then none else some s.workers
  priority := s.priority.word
  output := some s.outputPath
  scriptFolder := s.scriptFolder

def text? : Json → Option String
  | .str s => some s
  | _ => none

def texts? : Json → Option (List String)
  | .arr items => some (items.filterMap text?)
  | _ => none

def roots? : Json → Option (List (String × String))
  | .obj fields => some (fields.filterMap fun (name, v) => (text? v).map fun path => (name, path))
  | _ => none

def workers? : Json → Option Int
  | .int n => if n = 0 then none else some n
  | _ => none

/-- A plan from settings that nobody checked; what is missing or of another kind is left open. -/
def ofFields (fields : List (String × Json)) : Plan :=
  let field := Json.getKey? fields
  { roots := ((field "source_roots").bind roots?).getD []
    mergeWith := ((field "merge_with").bind texts?).getD []
    scan :=
      { extensions := (field "extensions").bind texts?
        included := (field "include_patterns").bind texts?
        excluded := (field "exclude_patterns").bind texts?
        respectIgnored := ((field "respect_gitignore").map Json.isGiven).getD true }
    workers := (field "max_workers").bind workers?
    priority := ((field "merge_priority").bind text?).getD Priority.lastWins.word
    output := (field "output_path").bind text?
    scriptFolder := ((field "legacy_export_dir").bind text?).getD "" }

end Plan

end DocNavigation

namespace DocNavigation

structure BuildResult where
  ok : Bool
  error : String
  artifactPath : String := ""
  scripts : List String := []
  units : List String := []
  failures : List String := []
  replaced : List String := []
  summary : List (String × Json) := []
deriving DecidableEq, Repr

namespace BuildResult

def failure (error : String) (failures : List String) (summary : List (String × Json)) :
    BuildResult where
  ok := false
  error := error
  failures := failures
  summary := summary

def toJson (r : BuildResult) : Json :=
  .obj [("ok", .bool r.ok), ("error", .str r.error), ("artifact_path", .str r.artifactPath),
    ("legacy_files", .strings r.scripts), ("units", .strings r.units),
    ("failures", .strings r.failures), ("replaced", .strings r.replaced),
    ("summary", .obj r.summary)]

end BuildResult

end DocNavigation
