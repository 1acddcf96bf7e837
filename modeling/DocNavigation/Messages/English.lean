import DocNavigation.Json.Basic

/-!
The English texts of the command line.
-/

namespace DocNavigation.Messages

def applicationTexts : List (String × String) :=
  [("description", "Build, merge and inspect documentation navigation indexes.")]

def argumentTexts : List (String × String) :=
  [("config", "Path to a JSON configuration file."),
   ("debug", "Elevate logging verbosity to DEBUG."),
   ("log_file", "Also write logs to this file (rotated)."),
   ("json", "Print the result as JSON."),
   ("dry_run", "Compute the result without writing any file."),
   ("build", "Scan source roots and write a navigation artifact."),
   ("unit", "Unit to scan, as NAME=DIRECTORY (repeatable)."),
   ("output", "Destination of the navigation artifact."),
   ("merge_with", "Prior artifact (path or URL) merged before the new units (repeatable)."),
   ("priority", "Conflict rule when a unit appears in several sources."),
   ("legacy_dir", "Also export source-files.js and sidebar-items.js into this directory."),
   ("ext", "Comma separated list of source extensions."),
   ("exclude", "Comma separated exclusion regexes."),
   ("no_gitignore", "Ignore .gitignore rules of the source roots."),
   ("workers", "Number of extraction threads (0 = automatic)."),
   ("merge", "Merge artifacts into one; later sources win by default."),
   ("sources", "Artifacts to merge (paths or URLs), oldest first."),
   ("show", "Display the units of an artifact."),
   ("artifact", "Path to a navigation artifact."),
   ("unit_name", "Unit to display; lists all units when omitted."),
   ("catalog", "Include the item catalog."),
   ("export_legacy", "Write legacy JavaScript index files from an artifact."),
   ("import_legacy", "Convert legacy JavaScript index files into an artifact."),
   ("source_files", "Path to a source-files.js script."),
   ("sidebar_dir", "Directory holding <unit>/sidebar-items.js files.")]

def statusTexts : List (String × String) :=
  [("success", "Done."),
   ("artifact", "Artifact: \x7bpath\x7d"),
   ("units", "Units: \x7bcount\x7d"),
   ("replaced", "Resolved by priority: \x7bnames\x7d"),
   ("failure", "  ! \x7bfailure\x7d"),
   ("failures", "Skipped (\x7bcount\x7d):"),
   ("legacy", "Legacy files written: \x7bcount\x7d"),
   ("dry_run", "Dry run, nothing written."),
   ("interrupted", "Operation interrupted by user.")]

def errorTexts : List (String × String) :=
  [("path_not_exist", "Path does not exist: \x7bpath\x7d"),
   ("bad_unit", "Invalid unit specification '\x7bvalue\x7d', expected NAME=DIRECTORY."),
   ("duplicate_unit", "Unit '\x7bname\x7d' is given more than once."),
   ("operation_failed", "Operation failed: \x7berror\x7d")]

def group (texts : List (String × String)) : Json :=
  .obj (texts.map fun (key, text) => (key, .str text))

def english : Json :=
  .obj [("app", group applicationTexts),
    ("cli", .obj [("args", group argumentTexts), ("status", group statusTexts),
      ("errors", group errorTexts)])]

end DocNavigation.Messages
