import DocNavigation.Host
import DocNavigation.Log.Basic
import DocNavigation.Log.Files

/-!
A run of the program: the machine, the logs, and what was printed. Records of a level that the logs
let through go to the sinks; while nothing is attached, warnings and worse are shown bare. Logs are
set up and shut down within it.
-/

namespace DocNavigation

structure Session where
  host : Host
  logs : Logs := {}
  moment : Moment := {}
  output : String := ""
  errors : String := ""
  /-- What the console sink has shown. -/
  console : String := ""
deriving DecidableEq

abbrev Talk := ExceptT Fault (StateM Session)

namespace Talk

def print (line : String) : Talk Unit :=
  modify fun s => { s with output := s.output ++ line ++ "\n" }

def printError (line : String) : Talk Unit :=
  modify fun s => { s with errors := s.errors ++ line ++ "\n" }

def printAll (lines : List String) : Talk Unit :=
  lines.forM print

def changeLogs (f : Logs → Logs) : Talk Unit :=
  modify fun s => { s with logs := f s.logs }

end Talk

namespace Session

/-- Shows a line at a sink. A file that cannot be written loses the line. -/
def write (s : Session) (target : SinkTarget) (line : String) : Session :=
  match target with
  | .console => { s with console := s.console ++ line }
  | .file path maxBytes backups =>
    let (_, d) := (LogFile.append path line maxBytes backups).run s.host.disk
    { s with host := { s.host with disk := d } }

def deliver (r : LogRecord) (s : Session) (sink : LogSink) : Session :=
  if r.note.level < sink.level then s
  else match sink.layout.render r with
    | some line => s.write sink.target (line ++ "\n")
    | none => s

/-- The level from which records are shown that no handler takes. -/
def lastResort : Nat := 30

def log (s : Session) (logger : String) (n : Note) : Session :=
  if n.level < s.logs.threshold then s
  else if s.logs.handlers.isEmpty then
    if n.level < lastResort then s else { s with errors := s.errors ++ n.message ++ "\n" }
  else (s.logs.listener.getD []).foldl (deliver ⟨logger, n, s.moment⟩) s

end Session

namespace Talk

def programName : String := "navindex"

def log (n : Note) : Talk Unit :=
  modify fun s => s.log programName n

/-- Runs an operation and logs its notes. -/
def perform (a : Act α) : Talk α := do
  let s ← get
  let (r, h) := a.run { s.host with journal := [] }
  set { s with host := { h with journal := [] } }
  h.journal.forM log
  match r with
  | .ok a => return a
  | .error e => throw e

end Talk

end DocNavigation

namespace DocNavigation

namespace LogSettings

def fileSink (c : LogSettings) (level : Nat) (layout : LogLayout) (path : String) :
    Talk (List LogSink) := do
  let s ← get
  let (r, d) := (LogFile.openAt path).run s.host.disk
  set { s with host := { s.host with disk := d } }
  match r with
  | .ok target => return [⟨.file target c.maxBytes c.backups, level, layout⟩]
  | .error .nullByte => throw (.disk .nullByte)
  | .error e =>
    Talk.printError s!"WARNING: Cannot open log file '{path}': {e.message}"
    return []

def layout (line moment : String) : Talk LogLayout :=
  match LogLayout.ofText? line moment with
  | some l => pure l
  | none => throw (.logLine line)

/-- The sinks that are asked for. A log file that cannot be opened is done without. -/
def sinks (c : LogSettings) (level : Nat) : Talk (List LogSink) := do
  let consoleLayout ← layout c.consoleLine ""
  let fileLayout ← layout c.fileLine c.moment
  let console := if c.onConsole then [LogSink.mk .console level consoleLayout] else []
  if !c.file.isGiven then return console
  match c.file with
  | .str path => return console ++ (← c.fileSink level fileLayout path)
  | v => throw (.notAPath v.kind)

end LogSettings

namespace Talk

/-- Configures the logs. A fault leaves them without sinks. -/
def configureLogs (c : LogSettings) (force : Bool) : Talk Unit := do
  if (← get).logs.keeps force then return
  let level := Logs.levelOfName c.level
  changeLogs (·.restart level)
  let sinks ← c.sinks level
  changeLogs (·.attach sinks)

def shutdownLogs : Talk Unit :=
  changeLogs Logs.shutdown

end Talk

end DocNavigation
