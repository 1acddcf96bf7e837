import DocNavigation.Path.Basic
import DocNavigation.Pattern.Glob
import DocNavigation.Text.Utf8

/-!
Lists of ignored names: a glob on each line, with comments and exceptions left out.
-/

namespace DocNavigation.Ignored

def fileName : String := ".gitignore"

def isRule (line : String) : Bool :=
  line ≠ "" && !Text.startsWith "#" line && !Text.startsWith "!" line

/-- A slash at the end of a rule does not count. -/
def pattern (line : String) : String :=
  Pattern.Glob.toPattern (String.ofList (Path.dropSlashes line.toList))

/-- The rules of a list as patterns. Bytes that are no text are replaced. -/
def patterns (bytes : ByteArray) : List String :=
  let text := Text.unifyNewlines (Text.Utf8.decodeLenient bytes)
  let lines := (Text.pieces '\n' text).map fun line => Text.trim (String.ofList line)
  (lines.filter isRule).map pattern

end DocNavigation.Ignored
