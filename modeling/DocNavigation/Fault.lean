import DocNavigation.Artifact.Reader
import DocNavigation.Disk.Basic
import DocNavigation.Pattern.Read
import DocNavigation.Settings.Check
import DocNavigation.Text.Encoding
import DocNavigation.Tree.Insert

/-!
Everything that can keep an operation from its result.
-/

namespace DocNavigation

inductive Fault where
  | tree (e : TreeError)
  | catalog (e : CatalogError)
  | registry (e : RegistryError)
  | malformed (m : Malformed)
  | disk (e : DiskError)
  | decoding (f : Text.Utf8.Fault)
  | encoding (e : Text.EncodingError)
  | pattern (e : Pattern.ReadError)
  | setting (e : SettingError)
  | noSetting (key : String)
  | sourceRoot (path : String)
  | priority (word : String)
  | workers
  | notAPath (kind : String)
  | logLine (line : String)
deriving DecidableEq, Repr

namespace Fault

def ofReader : Artifact.ReaderError → Fault
  | .malformed m => .malformed m
  | .encoding f => .decoding f
  | .notFound name => .registry (.notFound name)

/-- Faults of a source that leave the other sources readable. -/
def isIsolated : Fault → Bool
  | .malformed _ | .decoding _ => true
  | .disk e => e ≠ .nullByte
  | _ => false

/-- Refusals by the disk. -/
def isRefusal : Fault → Bool
  | .disk e => e ≠ .nullByte
  | _ => false

def message : Fault → String
  | .tree e => e.message
  | .catalog e => e.message
  | .registry e => e.message
  | .malformed m => m.message
  | .disk e => e.message
  | .decoding f => f.message
  | .encoding e => e.message
  | .pattern e => e.message
  | .setting e => e.message
  | .noSetting key => Text.quoted key
  | .sourceRoot path => s!"Source root is not a directory: {path}"
  | .priority word => Priority.unknownMessage word
  | .workers => "max_workers must be greater than 0"
  | .notAPath kind => s!"expected str, bytes or os.PathLike object, not {kind}"
  | .logLine line => s!"Invalid format '{line}' for '%' style"

end Fault

end DocNavigation
