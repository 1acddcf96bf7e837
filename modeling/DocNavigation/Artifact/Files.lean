import DocNavigation.Disk.Replace
import DocNavigation.Disk.Text

/-!
Artifacts in files.
-/

namespace DocNavigation.Artifact

def write (r : Registry) (path : String) : Act String := do
  let written ← Disk.replaceFile path (encode r) "utf-8"
  Act.note (.info s!"Artifact: {r.size} units written to {written}")
  return written

/-- Decodes a text; what was understood before a defect is noted too. -/
def read (text : String) (source : Option String) : Act Registry := do
  Act.notes (decodeNotes text source)
  Act.lift ((decode text source).mapError .malformed)

def load (path : String) : Act Registry := do
  read (← Act.look (·.readText path)) (some path)

/-- The lines of a file as a reader meets them. -/
def streamOf (d : Disk) (path : String) : Except Fault LineStream :=
  (d.bytes path).map LineStream.ofBytes

def openFile (path : String) : Act Reader := do
  let s ← Act.look (streamOf · path)
  match s.lines with
  | first :: _ =>
    match Header.read first with
    | .ok h => Act.notes h.notes
    | .error _ => pure ()
  | [] => pure ()
  Act.lift ((Reader.openStream path s).mapError Fault.ofReader)

/-- The file is read anew at every look. -/
def Reader.getFrom (r : Reader) (name : String) : Act Component := do
  if r.contains name then
    let s ← Act.look (streamOf · r.path)
    Act.lift ((r.get s name).mapError Fault.ofReader)
  else throw (.registry (.notFound name))

end DocNavigation.Artifact
