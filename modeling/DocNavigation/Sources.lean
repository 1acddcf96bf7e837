import DocNavigation.Artifact.Files
import DocNavigation.Host
import DocNavigation.Number.Binary64

/-!
Loading artifacts from files and from the network. A source that cannot be loaded is reported and
leaves the others alone. What goes wrong with a download is noted, and the text is missing then.
-/

namespace DocNavigation.Web

def userAgent : String := "NavIndex-Client/1.0.0"

def headers : List (String × String) :=
  [("User-Agent", userAgent), ("Accept", "application/x-ndjson, application/json, text/plain")]

def usualTimeout : Int := 10

def maxBytes : Nat := 64 * 1024 * 1024

/-- Kibibytes with one decimal place, a half going to the even neighbour. -/
def kibibytes (size : Nat) : String :=
  let tenths := Number.roundDivEven (size * 10) 1024
  s!"{tenths / 10}.{tenths % 10}"

/-- What a reply gives, with the notes on it. -/
def received (url : String) (timeout : Int) (r : Reply) : Option String × List Note :=
  match r.refusal? url, r with
  | some e, _ => (none, [.error s!"Network: Communication error while fetching {url}: {e}"])
  | none, .answer _ _ body =>
    if maxBytes < body.size then
      (none, [.warning s!"Network: Artifact at {url} exceeds {maxBytes} bytes. Ignored."])
    else
      let size := kibibytes body.size
      let downloaded := Note.info s!"Network: Artifact downloaded from {url} ({size} KB)."
      match Text.Utf8.decode body with
      | .ok s => (some s, [downloaded])
      | .error f =>
        (none, [downloaded,
          .error s!"Network: Artifact at {url} is not valid UTF-8: {f.message}"])
  | none, _ =>
    (none, [.warning s!"Network: Artifact download timed out after {timeout}s ({url})."])

def fetch (url : String) (timeout : Int) : Act (Option String) := do
  let h : Host ← get
  let (text, notes) := received url timeout (h.web.reply url)
  let request : Request := ⟨url, headers, timeout⟩
  set { h with requests := h.requests ++ [request] }
  Act.notes (.debug s!"Network: Fetching artifact from {url}" :: notes)
  return text

end DocNavigation.Web

namespace DocNavigation

structure SourceFailure where
  source : String
  error : String
deriving DecidableEq, Repr

structure Loaded where
  registries : List Registry := []
  failures : List SourceFailure := []
deriving DecidableEq, Repr

namespace Sources

/-- The outcome of one source, as long as its failure can be isolated. -/
def isolate (source skipping : String) (a : Act (Except String Registry)) :
    Act (Except SourceFailure Registry) := do
  let failed := fun (message : String) => do
    Act.note (.warning s!"{skipping} '{source}': {message}")
    return Except.error ⟨source, message⟩
  match ← Act.attempt a with
  | .ok (.ok r) => return .ok r
  | .ok (.error message) => failed message
  | .error e => if e.isIsolated then failed e.message else throw e

def loadFile (source : String) : Act (Except String Registry) :=
  return .ok (← Artifact.load source)

def loadAny (source : String) : Act (Except String Registry) := do
  if Path.isRemote source then
    match ← Web.fetch source Web.usualTimeout with
    | none => return .error "download failed"
    | some text => return .ok (← Artifact.read text (some source))
  else loadFile source

def gather (outcomes : List (Except SourceFailure Registry)) : Loaded where
  registries := outcomes.filterMap fun
    | .ok r => some r
    | .error _ => none
  failures := outcomes.filterMap fun
    | .ok _ => none
    | .error f => some f

/-- Loads files and addresses in order. -/
def load (sources : List String) : Act Loaded :=
  return gather (← sources.mapM fun s => isolate s "Build: Skipping artifact" (loadAny s))

/-- Loads files only. -/
def loadFiles (paths : List String) : Act Loaded :=
  return gather (← paths.mapM fun p => isolate p "Artifact: Skipping" (loadFile p))

end Sources

end DocNavigation
