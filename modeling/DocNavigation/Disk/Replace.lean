import DocNavigation.Host

/-!
Replacing a file as a whole. The content goes to a temporary file beside the target, which then
takes the target's place, so that no reader meets half of it. A failure removes the temporary file.
-/

namespace DocNavigation.Disk

def encoded (text encoding : String) : Except Fault ByteArray :=
  (Text.Encoding.ofName encoding >>= (·.encode text)).mapError .encoding

def removeFile (p : Place) : DiskAct Unit :=
  modify (·.erase p)

/-- Creates an empty temporary file in a folder, under a name that is free there. -/
def makeTemporary (folder : String) : DiskAct Place := do
  let d ← get
  match d.resolve false (Path.join folder sampleTemporary) with
  | .error (.refused r _ _) => throw (.refused r (Path.join folder usualTemporary) none)
  | .error e => throw e
  | .ok f =>
    Disk.attempt .create
    let above := f.place.dropLast
    let p := above ++ [temporaryName ((d.children above).map (·.1))]
    modify (·.put p (.file .empty))
    return p

/-- Fills the temporary file and moves it to the target. -/
def fill (p : Place) (temporary target text encoding : String) : Act Unit := do
  let bytes ← Act.lift (encoded text encoding)
  Act.change (putFile p bytes)
  Act.change (moveFile p temporary target)

/-- Gives the absolute path that was written. -/
def replaceFile (path text encoding : String) : Act String := do
  let d ← Act.disk
  let target := d.absolute path
  let above := Path.folder target
  Act.change (makeFolders above)
  let p ← Act.change (makeTemporary above)
  try fill p (Path.join above usualTemporary) target text encoding
  catch e =>
    Act.change (removeFile p)
    throw e
  return target

end DocNavigation.Disk
