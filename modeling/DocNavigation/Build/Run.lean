import DocNavigation.Build.Plan
import DocNavigation.Build.Task
import DocNavigation.Number.Power
import DocNavigation.Script.Files
import DocNavigation.Sources

/-!
Builds and merges. A build scans its source roots, puts the units after those of prior artifacts,
and writes the outcome; a dry run only tells what it would be.
-/

namespace DocNavigation

/-- The order in which workers finish. -/
abbrev Arrangement := List Delivery → List Delivery

/-- Collects the units that tasks deliver. -/
def collectArranged (finishing : Arrangement) (target : Registry) (tasks : List Delivery)
    (workers : Option Int) (isSet : Nat → Bool) (freeze : Bool) : Act Collection := do
  if workers.any (· ≤ 0) then throw .workers
  let c := collect target tasks isSet finishing freeze
  Act.notes c.notes
  return c

/-- Workers finish in the order of the tasks, and the wish to stop is seen from some look on. -/
def collectUnits (target : Registry) (tasks : List Delivery) (workers : Option Int)
    (stopAfter : Option Nat) (freeze : Bool) : Act Collection :=
  collectArranged id target tasks workers (fun look => stopAfter.any (· ≤ look)) freeze

def mergeAll (sources : List Registry) (priority : String) : Act (Registry × MergeReport) := do
  match Priority.ofString? priority with
  | none => throw (.priority priority)
  | some p =>
    let m := merge sources p
    Act.notes m.notes
    return (m.registry, m.report)

namespace Build

/-- The collected units in the order of the plan. -/
def fresh (plan : Plan) (collected : Registry) : List Component :=
  plan.roots.filterMap fun (name, _) => collected.get? name

def summary (plan : Plan) (dryRun : Bool) (c : Collection) (r : Registry) (report : MergeReport) :
    List (String × Json) :=
  let count := fun (n : Nat) => Json.int n
  [("dry_run", .bool dryRun),
   ("scanned", count plan.roots.length),
   ("collected", count c.registered.length),
   ("merged_sources", count report.sources),
   ("units", count report.units),
   ("files", count (Number.total (r.units.map (·.tree.fileCount)))),
   ("entries", count (Number.total (r.units.map (·.catalog.size))))]

/-- Writes the scripts, if they are wanted. -/
def exportWanted (plan : Plan) (r : Registry) : Act (List String) :=
  if plan.scriptFolder = "" then pure [] else Script.exportTo plan.scriptFolder r

/-- Writes the artifact and then the scripts. -/
def persist (plan : Plan) (r : Registry) : Act (String × List String) := do
  match plan.output with
  | none => throw (.noSetting "output_path")
  | some output =>
    let path ← Artifact.write r output
    return (path, ← exportWanted plan r)

def scanRoot (plan : Plan) (root : (String × String) × Nat) : Act Delivery :=
  ScanTask.deliver plan.scan root.1.1 root.1.2 root.2

/-- Scans the roots: one task for each of them. -/
def scan (plan : Plan) : Act (List Delivery) :=
  if plan.workers.any (· ≤ 0) then throw .workers
  else plan.roots.zipIdx.mapM (scanRoot plan)

def finish (plan : Plan) (r : Registry) (result : BuildResult) : Act BuildResult := do
  match ← Act.attempt (persist plan r) with
  | .ok (path, scripts) => return { result with artifactPath := path, scripts := scripts }
  | .error e =>
    if e.isRefusal then
      Act.note (.error s!"Build: Failed to persist outputs: {e.message}")
      return .failure s!"Failed to write outputs: {e.message}" result.failures result.summary
    else throw e

/-- Writes the merged units, unless there are none of them or nothing is to be written. -/
def conclude (plan : Plan) (dryRun : Bool) (r : Registry) (result : BuildResult) :
    Act BuildResult := do
  if r.size = 0 then return .failure "Build produced no units." result.failures []
  if dryRun then return result
  finish plan r result

/-- What becomes of the collected units: they are merged after those of prior artifacts, and
written. -/
def runCollected (plan : Plan) (dryRun : Bool) (c : Collection) : Act BuildResult := do
  let units := fresh plan c.registry
  let fresh ← Act.lift ((Registry.ofUnits units).mapError .registry)
  Act.notes (units.map Registry.registered)
  let prior ← Sources.load plan.mergeWith
  let (r, report) ← mergeAll (prior.registries ++ [fresh.freeze]) plan.priority
  conclude plan dryRun r
    { ok := true
      error := ""
      artifactPath := plan.output.getD ""
      units := r.names
      failures := c.failures.map (fun f => s!"{f.task}: {f.error}")
        ++ prior.failures.map fun f => s!"{f.source}: {f.error}"
      replaced := report.replaced
      summary := summary plan dryRun c r report }

/-- A build whose roots are scanned. -/
def runDelivered (finishing : Arrangement) (plan : Plan) (dryRun : Bool)
    (tasks : List Delivery) : Act BuildResult := do
  runCollected plan dryRun (← collectArranged finishing {} tasks plan.workers (fun _ => false) true)

def runArranged (finishing : Arrangement) (plan : Plan) (dryRun : Bool) : Act BuildResult := do
  if plan.roots.isEmpty ∧ plan.mergeWith.isEmpty then
    return .failure "Nothing to build: no source roots and no artifacts to merge." [] []
  Act.note (.info s!"Build: Scanning {plan.roots.length} source roots...")
  runDelivered finishing plan dryRun (← scan plan)

/-- Workers finish in the order of the plan. -/
def run (plan : Plan) (dryRun : Bool) : Act BuildResult :=
  runArranged id plan dryRun

end Build

namespace MergeFiles

def finish (r : Registry) (output : String) (result : BuildResult) : Act BuildResult := do
  match ← Act.attempt (Artifact.write r output) with
  | .ok path => return { result with artifactPath := path }
  | .error e =>
    if !e.isRefusal then throw e
    return .failure s!"Failed to write artifact: {e.message}" result.failures result.summary

/-- Merges artifacts into a new one. Sources that cannot be loaded are left out. -/
def run (sources : List String) (output priority : String) (dryRun : Bool) : Act BuildResult := do
  let loaded ← Sources.load sources
  let failures := loaded.failures.map fun f => s!"{f.source}: {f.error}"
  if loaded.registries.isEmpty then return .failure "No artifact could be loaded." failures []
  let (r, report) ← mergeAll loaded.registries priority
  let result : BuildResult :=
    { ok := true
      error := ""
      artifactPath := output
      units := r.names
      failures := failures
      replaced := report.replaced
      summary := [("dry_run", .bool dryRun), ("merged_sources", .int report.sources),
        ("units", .int report.units)] }
  if dryRun then return result
  finish r output result

end MergeFiles

end DocNavigation
