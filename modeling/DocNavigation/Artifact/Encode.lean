import DocNavigation.Json.Write
import DocNavigation.Registry

/-!
Navigation artifacts: one JSON line that announces the format and the units, then one line for each
unit in the same order.
-/

namespace DocNavigation.Artifact

def formatName : String := "navindex"
def formatVersion : Int := 1

def header (r : Registry) : Json :=
  .obj [("format", .str formatName), ("version", .int formatVersion), ("units", .strings r.names)]

/-- The header and the records, none of them with a line feed in it. -/
def records (r : Registry) : List String :=
  (header r :: r.units.map Component.toJson).map (·.write Json.compact)

def encode (r : Registry) : String :=
  "\n".intercalate (records r) ++ "\n"

end DocNavigation.Artifact
