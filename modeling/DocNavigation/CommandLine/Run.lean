import DocNavigation.Artifact.Files
import DocNavigation.Build.Run
import DocNavigation.CommandLine.Overrides
import DocNavigation.Script.Files
import DocNavigation.Session
import DocNavigation.Settings.Store

/-!
Running command lines. Faults of a command are reported and end it; faults before it are reported
as crashes.
-/

namespace DocNavigation

inductive ExitCode where
  | ok
  | failure
  | usage
  | interrupted
deriving DecidableEq, Repr

def ExitCode.number : ExitCode → Nat
  | .ok => 0
  | .failure => 1
  | .usage => 2
  | .interrupted => 130

namespace CommandLine

def usageError (message : String) : Talk ExitCode := do
  Talk.log (.error message)
  Talk.printError s!"ERROR: {message}"
  return .usage

def noSuchPath (path : String) : Talk ExitCode :=
  usageError (Messages.say "cli.errors.path_not_exist" [("path", .str path)])

def printStatus (key : String) (args : List (String × Json)) : Talk Unit :=
  Talk.print (Messages.say ("cli.status." ++ key) args)

def printItems (items : List String) : Talk Unit :=
  Talk.printAll (items.map ("  - " ++ ·))

def printJson (v : Json) : Talk Unit :=
  Talk.print (v.writeIndented 2 0)

def printFailures (failures : List String) : Talk Unit := do
  if !failures.isEmpty then
    printStatus "failures" [("count", .int failures.length)]
    failures.forM fun f => printStatus "failure" [("failure", .str f)]

def isDryRun (r : BuildResult) : Bool :=
  ((Json.getKey? r.summary "dry_run").map Json.isGiven).getD false

def printSuccess (r : BuildResult) : Talk Unit := do
  printStatus "success" []
  if isDryRun r then printStatus "dry_run" []
  printStatus "artifact" [("path", .str r.artifactPath)]
  printStatus "units" [("count", .int r.units.length)]
  printItems r.units
  if !r.replaced.isEmpty then
    printStatus "replaced" [("names", .str (", ".intercalate r.replaced))]
  if !r.scripts.isEmpty then
    printStatus "legacy" [("count", .int r.scripts.length)]
  printFailures r.failures

def printSummary (r : BuildResult) : Talk Unit := do
  if r.ok then printSuccess r
  else
    Talk.printError s!"ERROR: {r.error}"
    printFailures r.failures

def report (r : BuildResult) (asJson : Bool) : Talk ExitCode := do
  if asJson then printJson r.toJson else printSummary r
  return if r.ok then .ok else .failure

/-- The settings of a build: those of the file under those of the command line. -/
def settingsOf (base overrides : List (String × Json)) : Talk Settings := do
  let s ← get
  let merged := Json.obj (BuildArguments.mergeFields base overrides)
  match Settings.check s.host.environment false merged with
  | .error e => throw (.setting e)
  | .ok (settings, warnings) =>
    for w in warnings do
      Talk.log (.warning s!"Configuration Constraint: {w.message}")
    return settings

def build (a : BuildArguments) (base : List (String × Json)) : Talk ExitCode := do
  match a.overrides with
  | .error e => usageError e.message
  | .ok overrides =>
    let settings ← settingsOf base overrides
    let d := (← get).host.disk
    match settings.sourceRoots.find? fun (_, path) => !d.isFolder path with
    | some (_, path) => noSuchPath path
    | none => report (← Talk.perform (Build.run (.ofSettings settings) a.dryRun)) a.asJson

def mergeArtifacts (a : MergeArguments) : Talk ExitCode := do
  let output := (← get).host.disk.absolute a.output
  report (← Talk.perform (MergeFiles.run a.sources output a.priority a.dryRun)) a.asJson

def showNames (names : List String) (asJson : Bool) : Talk Unit :=
  if asJson then printJson (.strings names) else Talk.printAll names

def showUnit (u : Component) (a : ShowArguments) : Talk Unit :=
  if a.asJson then printJson u.toJson
  else Talk.print ("\n".intercalate (u.render a.withCatalog))

def showArtifact (a : ShowArguments) : Talk ExitCode := do
  if !(← get).host.disk.isFile a.artifact then return ← noSuchPath a.artifact
  let reader ← Talk.perform (Artifact.openFile a.artifact)
  match a.unit with
  | none =>
    showNames reader.names a.asJson
    return .ok
  | some name =>
    match ← Talk.perform (Act.attempt (reader.getFrom name)) with
    | .ok u =>
      showUnit u a
      return .ok
    | .error (.registry (.notFound name)) => usageError (RegistryError.notFound name).message
    | .error e => throw e

def exportScripts (a : ExportArguments) : Talk ExitCode := do
  if !(← get).host.disk.isFile a.artifact then return ← noSuchPath a.artifact
  let r ← Talk.perform (Artifact.load a.artifact)
  let written ← Talk.perform (Script.exportTo a.folder r)
  printStatus "success" []
  printStatus "legacy" [("count", .int written.length)]
  printItems written
  return .ok

def importScripts (a : ImportArguments) : Talk ExitCode := do
  let d := (← get).host.disk
  if !d.isFile a.script then return ← noSuchPath a.script
  match a.sidebars.filter fun path => path ≠ "" ∧ !d.isFolder path with
  | some path => noSuchPath path
  | none =>
    let r ← Talk.perform (Script.importFrom a.script a.sidebars)
    let path ← Talk.perform (Artifact.write r a.output)
    printStatus "success" []
    printStatus "artifact" [("path", .str path)]
    printStatus "units" [("count", .int r.size)]
    return .ok

def word : Command → String
  | .build _ => "build"
  | .merge _ => "merge"
  | .show _ => "show"
  | .exportScripts _ => "export-legacy"
  | .importScripts _ => "import-legacy"

def runCommand (base : List (String × Json)) : Command → Talk ExitCode
  | .build a => build a base
  | .merge a => mergeArtifacts a
  | .show a => showArtifact a
  | .exportScripts a => exportScripts a
  | .importScripts a => importScripts a

def reportInterrupt : Talk ExitCode := do
  let message := Messages.say "cli.status.interrupted" []
  Talk.log (.warning message)
  Talk.printError message
  return .interrupted

def reportFault (e : Fault) : Talk ExitCode := do
  let message := Messages.say "cli.errors.operation_failed" [("error", .str e.message)]
  Talk.log (.critical message)
  Talk.printError s!"ERROR: {message}"
  return .failure

/-- How the logs are kept: the command line goes before the settings file. -/
def logSettings (i : Invocation) (base : List (String × Json)) : LogSettings where
  level :=
    if i.debug then "DEBUG"
    else match (Json.getKey? base "log_level").filter Json.isGiven with
      | some v => v.plain
      | none => "INFO"
  file :=
    match i.logFile.filter (· ≠ "") with
    | some path => .str path
    | none => (Json.getKey? base "log_file").getD .null

def start (i : Invocation) : Talk (List (String × Json)) := do
  let base ← Talk.perform (Settings.load i.configPath)
  Talk.configureLogs (logSettings i base) true
  Talk.log (.debug s!"CLI execution initiated: command '{word i.command}'.")
  return base

/-- The kind of a fault that keeps a command from its start. -/
def faultKind : Fault → String
  | .notAPath _ => "TypeError"
  | _ => "ValueError"

def rule : String :=
  String.ofList (List.replicate 80 '=')

def reportCrash (e : Fault) : Talk ExitCode := do
  let trace := s!"{faultKind e}: {e.message}\n"
  Talk.log (.critical s!"FATAL EXCEPTION DETECTED: {e.message}\n{trace}")
  Talk.printError ("\n" ++ rule)
  Talk.printError "CRITICAL ERROR (NAVINDEX CLI)"
  Talk.printError rule
  Talk.printError trace
  return .failure

/-- An interrupted run stops as soon as its command begins. -/
def carryOut (i : Invocation) (interrupted : Bool) (base : List (String × Json)) :
    Talk ExitCode := do
  if interrupted then reportInterrupt
  else tryCatch (runCommand base i.command) reportFault

def runInvocation (i : Invocation) (interrupted : Bool) : Talk ExitCode := do
  match ← observing (start i) with
  | .ok base => carryOut i interrupted base
  | .error e => reportCrash e

/-- Runs a command line up to the closing of the logs. -/
def execute (words : List String) (interrupted : Bool) : Talk ExitCode := do
  match understand words with
  | .error (.help text) =>
    modify fun s => { s with output := s.output ++ text }
    return .ok
  | .error (.refused text) =>
    modify fun s => { s with errors := s.errors ++ text }
    return .usage
  | .ok i =>
    let code ← runInvocation i interrupted
    Talk.shutdownLogs
    return code

end CommandLine

end DocNavigation
