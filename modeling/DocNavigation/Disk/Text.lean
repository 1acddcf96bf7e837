import DocNavigation.Fault

/-!
Files read as text: the bytes are UTF-8, and every line ending becomes a line feed.
-/

namespace DocNavigation.Disk

def bytes (d : Disk) (path : String) : Except Fault ByteArray :=
  (d.readFile path).mapError .disk

def readText (d : Disk) (path : String) : Except Fault String :=
  match d.bytes path with
  | .error e => .error e
  | .ok bytes =>
    match Text.Utf8.decode bytes with
    | .error f => .error (.decoding f)
    | .ok s => .ok (String.ofList (Text.unifyNewlines s.toList))

end DocNavigation.Disk
