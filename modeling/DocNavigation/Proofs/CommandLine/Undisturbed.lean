import DocNavigation.CommandLine.Run
import DocNavigation.Proofs.CommandLine.Operations
import DocNavigation.Proofs.Session

/-!
Commands that take no settings. Whatever the settings file holds, they come to the same and print the
same, as long as logs can be kept and their files are none of those that the command comes by.
-/

namespace DocNavigation

open Effect

namespace CommandLine

/-- The paths that a command reads or writes. -/
inductive Uses (h : Host) : Command → String → Prop
  | merged (a : MergeArguments) (source : String) (hsource : source ∈ a.sources)
      (hlocal : Path.isRemote source = false) : Uses h (.merge a) source
  | mergedTo (a : MergeArguments) (hwrites : a.dryRun = false) :
      Uses h (.merge a) (h.disk.absolute a.output)
  | shown (a : ShowArguments) : Uses h (.show a) a.artifact
  | exported (a : ExportArguments) : Uses h (.exportScripts a) a.artifact
  | index (a : ExportArguments) :
      Uses h (.exportScripts a) (h.disk.absolute (Path.join a.folder Script.fileName))
  | sidebar (a : ExportArguments) (r : Registry) (u : Component)
      (hload : ((Artifact.load a.artifact).run h).1 = .ok r) (hu : u ∈ r.units) :
      Uses h (.exportScripts a) (h.disk.absolute (Script.sidebarPath a.folder u.name))
  | imported (a : ImportArguments) : Uses h (.importScripts a) a.script
  | rowsIn (a : ImportArguments) (folder : String) (hfolder : a.sidebars = some folder)
      (hfull : folder ≠ "") : Uses h (.importScripts a) folder
  | rows (a : ImportArguments) (folder name : String) (hfolder : a.sidebars = some folder)
      (hfull : folder ≠ "") (hname : name ∈ Script.namesOn h.disk a.script) :
      Uses h (.importScripts a) (Script.sidebarPath folder name)
  | importedTo (a : ImportArguments) : Uses h (.importScripts a) (h.disk.absolute a.output)

variable {aside : Place → Prop} {d₀ d₀' : Disk}

theorem twins_usageError (message : String) :
    Twins (Session.Beside aside d₀ d₀') Eq (usageError message) (usageError message) := by
  refine Twins.bind_same (Talk.twins_log _ _) fun _ => ?_
  exact Twins.bind_same (Talk.twins_printError _ _) fun _ => twins_pure _ _ rfl

theorem twins_printFailures (failures : List String) :
    Twins (Session.Beside aside d₀ d₀') Eq (printFailures failures) (printFailures failures) := by
  unfold printFailures
  split
  · refine Twins.bind_same (Talk.twins_print _) fun _ => ?_
    exact Twins.forM _ _ failures fun f _ => Talk.twins_print _
  · exact twins_pure _ _ rfl

theorem twins_printSuccess (r : BuildResult) :
    Twins (Session.Beside aside d₀ d₀') Eq (printSuccess r) (printSuccess r) := by
  refine Twins.bind_same (Talk.twins_print _) fun _ => ?_
  refine Twins.bind_if (Talk.twins_print _) fun _ => ?_
  refine Twins.bind_same (Talk.twins_print _) fun _ => ?_
  refine Twins.bind_same (Talk.twins_print _) fun _ => ?_
  refine Twins.bind_same (Talk.twins_printAll _) fun _ => ?_
  refine Twins.bind_if (Talk.twins_print _) fun _ => ?_
  exact Twins.bind_if (Talk.twins_print _) fun _ => twins_printFailures _

theorem twins_printSummary (r : BuildResult) :
    Twins (Session.Beside aside d₀ d₀') Eq (printSummary r) (printSummary r) := by
  unfold printSummary
  split
  · exact twins_printSuccess r
  · exact Twins.bind_same (Talk.twins_printError _ _) fun _ => twins_printFailures _

theorem twins_report (r : BuildResult) (asJson : Bool) :
    Twins (Session.Beside aside d₀ d₀') Eq (report r asJson) (report r asJson) := by
  cases asJson with
  | true => exact Twins.bind_same (Talk.twins_print _) fun _ => twins_pure _ _ rfl
  | false => exact Twins.bind_same (twins_printSummary r) fun _ => twins_pure _ _ rfl

theorem twins_showNames (names : List String) (asJson : Bool) :
    Twins (Session.Beside aside d₀ d₀') Eq (showNames names asJson) (showNames names asJson) := by
  unfold showNames
  split
  · exact Talk.twins_print _
  · exact Talk.twins_printAll names

theorem twins_showUnit (u : Component) (a : ShowArguments) :
    Twins (Session.Beside aside d₀ d₀') Eq (showUnit u a) (showUnit u a) := by
  unfold showUnit
  split
  · exact Talk.twins_print _
  · exact Talk.twins_print _

theorem twins_mergeArtifacts (a : MergeArguments)
    (hsources : ∀ s ∈ a.sources, Path.isRemote s = false → Disk.Clear aside d₀ s)
    (houtput : a.dryRun = false → Disk.Clear aside d₀ (d₀.absolute a.output)) :
    Twins (Session.Beside aside d₀ d₀') Eq (mergeArtifacts a) (mergeArtifacts a) := by
  refine Twins.bind twins_get fun s s' h => ?_
  have htarget : s.host.disk.absolute a.output = d₀.absolute a.output := by
    rw [Disk.absolute, Disk.absolute, h.host.disk.later.workdir]
  have hagain : d₀.absolute (d₀.absolute a.output) = d₀.absolute a.output :=
    Path.absolute_absolute _ _ _ (Disk.isRooted_textOf d₀.workdir)
  simp only [h.host.disk.same.absolute, htarget]
  refine Twins.bind_same (Talk.twins_perform _ _ _ ?_) fun r => twins_report r a.asJson
  apply MergeFiles.twins_run a.sources _ a.priority a.dryRun hsources
  rw [hagain]
  exact houtput

theorem twins_noSuchPath (path : String) :
    Twins (Session.Beside aside d₀ d₀') Eq (noSuchPath path) (noSuchPath path) :=
  twins_usageError _

theorem twins_showArtifact (a : ShowArguments) (hclear : Disk.Clear aside d₀ a.artifact) :
    Twins (Session.Beside aside d₀ d₀') Eq (showArtifact a) (showArtifact a) := by
  refine Twins.bind twins_get fun s s' h => ?_
  rw [h.host.disk.isFile _ _ _ _ _ hclear]
  split
  · exact twins_noSuchPath _
  have hopen : Twins (Host.Beside aside d₀ d₀') (fun r r' => r = r' ∧ r.path = a.artifact)
      (Artifact.openFile a.artifact) (Artifact.openFile a.artifact) := by
    intro k k' hb
    refine (Artifact.twins_openFile a.artifact hclear k k' hb).and _ fun r hr => ?_
    exact Artifact.openFile_path a.artifact k _ r (Prod.ext hr rfl)
  refine Twins.bind (Talk.twins_perform _ _ _ hopen) ?_
  rintro reader _ ⟨rfl, hpath⟩
  split
  · exact Twins.bind_same (twins_showNames _ _) fun _ => twins_pure _ _ rfl
  next name hname =>
  have hget : Twins (Host.Beside aside d₀ d₀') Eq (Act.attempt (reader.getFrom name))
      (Act.attempt (reader.getFrom name)) :=
    Act.twins_attempt _ _ (Artifact.twins_getFrom reader name (hpath ▸ hclear))
  refine Twins.bind_same (Talk.twins_perform _ _ _ hget) fun r => ?_
  split
  · exact Twins.bind_same (twins_showUnit _ _) fun _ => twins_pure _ _ rfl
  · exact twins_usageError _
  · exact twins_throw _

theorem exportScripts_alike (a : ExportArguments) (h : Host) (s s' : Session)
    (hs : Session.Beside aside h.disk d₀' s s') (hnear : Host.Beside aside h.disk h.disk h s.host)
    (hclear : ∀ path, Uses h (.exportScripts a) path → Disk.Clear aside h.disk path) :
    Alike (Session.Beside aside h.disk d₀') Eq ((exportScripts a).run s)
      ((exportScripts a).run s') := by
  have hartifact := hclear _ (.exported a)
  rw [exportScripts, run_bind, run_bind, run_get, run_get]
  simp only
  rw [hs.host.disk.isFile _ _ _ _ _ hartifact]
  split
  · exact twins_noSuchPath _ s s' hs
  have hload : Alike (Session.Beside aside h.disk d₀')
      (fun r r' => r = r' ∧ ((Artifact.load a.artifact).run h).1 = .ok r)
      ((Talk.perform (Artifact.load a.artifact)).run s)
      ((Talk.perform (Artifact.load a.artifact)).run s') := by
    refine (Talk.twins_perform _ _ _ (Artifact.twins_load _ hartifact) s s' hs).and _ fun r hr => ?_
    rw [Talk.run_perform] at hr
    have hsame := Artifact.twins_load _ hartifact h { s.host with journal := [] }
      (hnear.journal _ _ _ _ h.journal [])
    exact hsame.result.trans hr
  refine hload.bind ?_
  rintro r _ ⟨rfl, hr⟩
  have hexport : Twins (Host.Beside aside h.disk d₀') Eq (Script.exportTo a.folder r)
      (Script.exportTo a.folder r) :=
    Script.twins_exportTo a.folder r (hclear _ (.index a)) fun u hu =>
      hclear _ (.sidebar a r u hr hu)
  refine Twins.bind_same (Talk.twins_perform _ _ _ hexport) fun written => ?_
  refine Twins.bind_same (Talk.twins_print _) fun _ => ?_
  refine Twins.bind_same (Talk.twins_print _) fun _ => ?_
  exact Twins.bind_same (Talk.twins_printAll _) fun _ => twins_pure _ _ rfl

theorem importScripts_alike (a : ImportArguments) (h : Host) (s s' : Session)
    (hs : Session.Beside aside h.disk d₀' s s') (hnear : Host.Beside aside h.disk h.disk h s.host)
    (hclear : ∀ path, Uses h (.importScripts a) path → Disk.Clear aside h.disk path) :
    Alike (Session.Beside aside h.disk d₀') Eq ((importScripts a).run s)
      ((importScripts a).run s') := by
  have hscript := hclear _ (.imported a)
  have hsame : ∀ d, Disk.Beside aside h.disk h.disk h.disk d →
      Script.namesOn d a.script = Script.namesOn h.disk a.script := fun d hd => by
    rw [Script.namesOn, Script.namesOn, hd.readText _ _ _ hscript]
  have hrows : (a.sidebars.filter fun path => path ≠ "" ∧ !s'.host.disk.isFolder path) =
      a.sidebars.filter fun path => path ≠ "" ∧ !s.host.disk.isFolder path := by
    cases hf : a.sidebars with
    | none => simp only [Option.filter_none]
    | some f =>
      by_cases hfull : f = ""
      · simp only [Option.filter_some, hfull, ne_eq, not_true_eq_false, false_and]
      · have hrows := hs.host.disk.isFolder _ _ _ _ _ (hclear _ (.rowsIn a f hf hfull))
        simp only [Option.filter_some, hrows]
  rw [importScripts, run_bind, run_bind, run_get, run_get]
  simp only [hs.host.disk.isFile _ _ _ _ _ hscript, hrows]
  split
  · exact twins_noSuchPath _ s s' hs
  split
  · exact twins_noSuchPath _ s s' hs
  have himport : Alike (Host.Beside aside h.disk d₀') Eq
      ((Script.importFrom a.script a.sidebars).run { s.host with journal := [] })
      ((Script.importFrom a.script a.sidebars).run { s'.host with journal := [] }) := by
    refine Script.importFrom_alike a.script a.sidebars _ _ (hs.host.journal _ _ _ _ [] []) hscript
      fun f hf hfull name hname => ?_
    exact hclear _ (.rows a f name hf hfull (hsame _ hnear.disk ▸ hname))
  refine (Talk.perform_alike _ _ _ s s' hs himport).bind ?_
  rintro r _ rfl
  have hwrite : Twins (Host.Beside aside h.disk d₀') Eq (Artifact.write r a.output)
      (Artifact.write r a.output) :=
    Artifact.twins_write r a.output (hclear _ (.importedTo a))
  refine Twins.bind_same (Talk.twins_perform _ _ _ hwrite) fun path => ?_
  refine Twins.bind_same (Talk.twins_print _) fun _ => ?_
  refine Twins.bind_same (Talk.twins_print _) fun _ => ?_
  exact Twins.bind_same (Talk.twins_print _) fun _ => twins_pure _ _ rfl

/-- A command that takes no settings is the same for any two. -/
theorem runCommand_alike (base base' : List (String × Json)) (c : Command)
    (hbuild : ∀ a, c ≠ .build a) (h : Host) (s s' : Session)
    (hs : Session.Beside aside h.disk d₀' s s') (hnear : Host.Beside aside h.disk h.disk h s.host)
    (hclear : ∀ path, Uses h c path → Disk.Clear aside h.disk path) :
    Alike (Session.Beside aside h.disk d₀') Eq ((runCommand base c).run s)
      ((runCommand base' c).run s') := by
  cases c with
  | build a => exact absurd rfl (hbuild a)
  | merge a =>
    exact twins_mergeArtifacts a (fun source hsource hlocal =>
      hclear source (.merged a source hsource hlocal)) (fun hwrites => hclear _ (.mergedTo a hwrites))
      s s' hs
  | «show» a => exact twins_showArtifact a (hclear _ (.shown a)) s s' hs
  | exportScripts a => exact exportScripts_alike a h s s' hs hnear hclear
  | importScripts a => exact importScripts_alike a h s s' hs hnear hclear

theorem twins_reportInterrupt :
    Twins (Session.Beside aside d₀ d₀') Eq reportInterrupt reportInterrupt := by
  refine Twins.bind_same (Talk.twins_log _ _) fun _ => ?_
  exact Twins.bind_same (Talk.twins_printError _ _) fun _ => twins_pure _ _ rfl

theorem twins_reportFault (e : Fault) :
    Twins (Session.Beside aside d₀ d₀') Eq (reportFault e) (reportFault e) := by
  refine Twins.bind_same (Talk.twins_log _ _) fun _ => ?_
  exact Twins.bind_same (Talk.twins_printError _ _) fun _ => twins_pure _ _ rfl

theorem twins_reportCrash (e : Fault) :
    Twins (Session.Beside aside d₀ d₀') Eq (reportCrash e) (reportCrash e) := by
  refine Twins.bind_same (Talk.twins_log _ _) fun _ => ?_
  refine Twins.bind_same (Talk.twins_printError _ _) fun _ => ?_
  refine Twins.bind_same (Talk.twins_printError _ _) fun _ => ?_
  refine Twins.bind_same (Talk.twins_printError _ _) fun _ => ?_
  exact Twins.bind_same (Talk.twins_printError _ _) fun _ => twins_pure _ _ rfl

/-- Whatever becomes of a command, there is a code for it. -/
theorem carryOut_returns (i : Invocation) (interrupted : Bool) (base : List (String × Json))
    (s : Session) : ∃ code t, (carryOut i interrupted base).run s = (.ok code, t) := by
  unfold carryOut
  split
  · exact ⟨_, _, rfl⟩
  · rw [run_tryCatch]
    generalize (runCommand base i.command).run s = o
    obtain ⟨r, t⟩ := o
    cases r with
    | ok code => exact ⟨code, t, rfl⟩
    | error e => exact ⟨_, _, rfl⟩

/-- The machine when the folder of the settings was looked for. -/
def prepared (i : Invocation) (h : Host) : Host :=
  ((Settings.load i.configPath).run { h with journal := [] }).2

/-- The log file that the settings ask for, if there is one, is kept aside. -/
def KeepsLogs (aside : Place → Prop) (i : Invocation) (h : Host) : Prop :=
  ∀ base, ((Settings.load i.configPath).run { h with journal := [] }).1 = .ok base →
    (logSettings i base).KeptAside aside (prepared i h).disk

/-- The start of a run fails only on the way to the settings. -/
theorem start_aside (i : Invocation) (s : Session) (hkeeps : KeepsLogs aside i s.host)
    (base : List (String × Json)) (k : Host)
    (hload : (Settings.load i.configPath).run { s.host with journal := [] } = (.ok base, k))
    (hlogs : s.logs.Confined aside k.disk) :
    ∃ t, (start i).run s = (.ok base, t) ∧ t.logs.Confined aside k.disk ∧
      Session.Unheard aside k.disk { s with host := { k with journal := [] }, logs := t.logs } t := by
  obtain ⟨t, hread, hunheard⟩ := Talk.perform_unheard _ s _ k hload hlogs
  have hkept := hkeeps base (congrArg Prod.fst hload)
  rw [prepared, hload] at hkept
  have husual := LogCall.usual_proper k.disk
  obtain ⟨u, hconfigure, hconfined, hlogged⟩ := Talk.configureLogs_aside (logSettings i base) t
    hunheard.disk.later hkept husual.consoleLine husual.fileLine
  have hwhole : Session.Unheard aside k.disk
      { s with host := { k with journal := [] }, logs := u.logs } u :=
    (hunheard.relog _ _ u.logs).trans _ _ _ hlogged
  have hrun : (start i).run s = (.ok base, u.log Talk.programName
      (.debug s!"CLI execution initiated: command '{word i.command}'.")) := by
    unfold start
    rw [run_bind, hread]
    simp only
    rw [run_bind, hconfigure]
    rfl
  have hlog := hwhole.log _ _ hconfined Talk.programName
    (.debug s!"CLI execution initiated: command '{word i.command}'.")
  refine ⟨_, hrun, ?_⟩
  generalize u.log _ _ = t at hlog
  have hsame : t.logs = u.logs := hlog.logs
  rw [hsame]
  exact ⟨hconfined, hlog⟩

/-- The starts of two runs on machines beside each other. -/
theorem start_alike (i : Invocation) (s s' : Session)
    (hs : Host.Beside aside s.host.disk s'.host.disk s.host s'.host) (houtput : s'.output = s.output)
    (hlogs : s.logs.listener = none) (hlogs' : s'.logs.listener = none)
    (hfolder : i.configPath.filter (· ≠ "") = none →
      Disk.Clear aside s.host.disk (Settings.userFolderPath s.host.environment false))
    (hkeeps : KeepsLogs aside i s.host) (hkeeps' : KeepsLogs aside i s'.host) :
    Alike (fun t t' => Session.Beside aside (prepared i s.host).disk (prepared i s'.host).disk t t' ∧
        Host.Beside aside (prepared i s.host).disk (prepared i s.host).disk (prepared i s.host) t.host)
      (fun _ _ => True) ((start i).run s) ((start i).run s') := by
  have hload := Settings.load_alike i.configPath _ _ (hs.journal _ _ _ _ [] []) hfolder
  have hnone := fun (l : Logs) hl d => l.confined_detached aside d hl
  rw [prepared, prepared]
  cases hk : (Settings.load i.configPath).run { s.host with journal := [] } with
  | mk r k =>
    cases hk' : (Settings.load i.configPath).run { s'.host with journal := [] } with
    | mk r' k' =>
      rw [hk, hk'] at hload
      have hafter := hload.state
      have hhost : Host.Beside aside k.disk k'.disk { k with journal := [] }
          { k' with journal := [] } :=
        ⟨⟨hafter.disk.same, .refl _, .refl _⟩, hafter.vars, hafter.homes, hafter.web,
          hafter.requests⟩
      have hnear : ∀ t : Session, Session.Unheard aside k.disk
          { s with host := { k with journal := [] } } { t with logs := s.logs } →
          Host.Beside aside k.disk k.disk k t.host := by
        intro t hunheard
        have hhost := hunheard.host _ _ (.refl _)
        exact ⟨hhost.disk, hhost.vars, hhost.homes, hhost.web, hhost.requests⟩
      have hbeside := fun t t' => Session.Unheard.beside s s' t t' { k with journal := [] }
        { k' with journal := [] } hhost houtput
      cases hload with
      | error e _ _ _ =>
        obtain ⟨t, hrun, hunheard⟩ := Talk.perform_unheard _ s _ k hk (hnone _ hlogs _)
        obtain ⟨t', hrun', hunheard'⟩ := Talk.perform_unheard _ s' _ k' hk' (hnone _ hlogs' _)
        have hlogs : t.logs.Confined aside k.disk := hnone _ (hunheard.logs ▸ hlogs) _
        have hlogs' : t'.logs.Confined aside k'.disk := hnone _ (hunheard'.logs ▸ hlogs') _
        have hbeside := hbeside t t' (hunheard.relog _ _ t.logs) (hunheard'.relog _ _ t'.logs)
          hlogs hlogs'
        rw [start, run_bind, run_bind, hrun, hrun']
        exact .error e t t' ⟨hbeside, hnear t (hunheard.relog _ _ s.logs)⟩
      | ok base base' _ _ _ _ =>
        obtain ⟨t, hrun, ht, hunheard⟩ := start_aside i s hkeeps base k hk (hnone _ hlogs _)
        obtain ⟨t', hrun', ht', hunheard'⟩ :=
          start_aside i s' hkeeps' base' k' hk' (hnone _ hlogs' _)
        rw [hrun, hrun']
        exact .ok base base' t t' trivial
          ⟨hbeside t t' hunheard hunheard' ht ht', hnear t (hunheard.relog _ _ s.logs)⟩

/-- What makes a run come to the same under any settings. -/
structure Untouched (aside : Place → Prop) (i : Invocation) (h : Host) : Prop where
  command : ∀ a, i.command ≠ .build a
  folder : i.configPath.filter (· ≠ "") = none →
    Disk.Clear aside h.disk (Settings.userFolderPath h.environment false)
  paths : ∀ path, Uses (prepared i h) i.command path → Disk.Clear aside (prepared i h).disk path

theorem runInvocation_alike (i : Invocation) (interrupted : Bool) (s s' : Session)
    (hs : Host.Beside aside s.host.disk s'.host.disk s.host s'.host) (houtput : s'.output = s.output)
    (hlogs : s.logs.listener = none) (hlogs' : s'.logs.listener = none)
    (huntouched : Untouched aside i s.host) (hkeeps : KeepsLogs aside i s.host)
    (hkeeps' : KeepsLogs aside i s'.host) :
    Alike (Session.Beside aside (prepared i s.host).disk (prepared i s'.host).disk) Eq
      ((runInvocation i interrupted).run s) ((runInvocation i interrupted).run s') := by
  have hstart := start_alike i s s' hs houtput hlogs hlogs' huntouched.folder hkeeps hkeeps'
  rw [runInvocation, run_bind, run_bind, run_observing, run_observing]
  generalize (start i).run s = o at hstart
  generalize (start i).run s' = o' at hstart
  cases hstart with
  | error e t t' h => exact twins_reportCrash e t t' h.1
  | ok base base' t t' _ h =>
    simp only [carryOut]
    split
    · exact twins_reportInterrupt t t' h.1
    · exact (runCommand_alike base base' i.command huntouched.command _ t t' h.1 h.2
        huntouched.paths).tryCatch twins_reportFault

/-- Whatever becomes of a run, there is a code for it. -/
theorem runInvocation_returns (i : Invocation) (interrupted : Bool) (s : Session) :
    ∃ code t, (runInvocation i interrupted).run s = (.ok code, t) := by
  rw [runInvocation, run_bind, run_observing]
  generalize (start i).run s = o
  obtain ⟨r, t⟩ := o
  cases r with
  | ok base => exact carryOut_returns i interrupted base t
  | error e => exact ⟨_, _, rfl⟩

/-- Two runs of a command line. -/
theorem execute_undisturbed (aside : Place → Prop) (words : List String) (interrupted : Bool)
    (h : Host) (d' : Disk) (m m' : Moment) (hsame : Disk.SameBut aside h.disk d')
    (hrun : ∀ i, understand words = .ok i → Untouched aside i h ∧ KeepsLogs aside i h ∧
      KeepsLogs aside i { h with disk := d' }) :
    ∃ code t t', (execute words interrupted).run { host := h, moment := m } = (.ok code, t) ∧
      (execute words interrupted).run { host := { h with disk := d' }, moment := m' } =
        (.ok code, t') ∧
      t'.output = t.output ∧ Disk.SameBut aside t.host.disk t'.host.disk := by
  unfold execute
  cases hwords : understand words with
  | error e =>
    cases e with
    | help text => exact ⟨_, _, _, rfl, rfl, rfl, hsame⟩
    | refused text => exact ⟨_, _, _, rfl, rfl, rfl, hsame⟩
  | ok i =>
    obtain ⟨huntouched, hkeeps, hkeeps'⟩ := hrun i hwords
    have halike := runInvocation_alike i interrupted { host := h, moment := m }
      { host := { h with disk := d' }, moment := m' }
      ⟨⟨hsame, .refl _, .refl _⟩, rfl, rfl, rfl, rfl⟩ rfl rfl rfl huntouched hkeeps hkeeps'
    obtain ⟨code, t, ht⟩ := runInvocation_returns i interrupted { host := h, moment := m }
    simp only
    rw [run_bind, run_bind]
    rw [ht] at halike ⊢
    generalize (runInvocation i interrupted).run { host := { h with disk := d' }, moment := m' } = o
      at halike
    cases halike with
    | ok _ code' _ t' hcode hbeside =>
      rw [← hcode]
      exact ⟨code, _, _, rfl, rfl, hbeside.output, hbeside.host.disk.same⟩

/-- An artifact of one unit. -/
def oneUnit : String :=
  "\x7b\"format\":\"navindex\",\"version\":1,\"units\":[\"u\"]\x7d\n" ++
    "\x7b\"unit\":\"u\",\"tree\":\x7b\"dirs\":\x7b\x7d,\"files\":[]\x7d,\"catalog\":\x7b\x7d\x7d\n"

/-- A machine with an artifact, and with what there is of settings. -/
def desk (settings : List (Place × DiskEntry)) : Host where
  disk :=
    { workdir := ["W"]
      entries := (["W"], .folder) :: (["W", "nav.jsonl"], .file oneUnit.toUTF8) :: settings }

/-- A log file is named. -/
def logged : Host :=
  desk [(["W", "c.json"], .file "\x7b\"log_file\":\"x.log\"\x7d".toUTF8)]

/-- The settings file, the log file and the old ones. -/
def beside : List Place :=
  ["c.json", "x.log", "x.log.1", "x.log.2", "x.log.3"].map fun name => ["W", name]

def listing : List String :=
  ["--config", "c.json", "show", "nav.jsonl"]

def listingRead : Invocation :=
  ⟨some "c.json", false, none, .show ⟨"nav.jsonl", none, false, false⟩⟩

theorem understand_listing : understand listing = .ok listingRead := by
  decide +kernel

theorem desk_unlinked (settings : List (Place × DiskEntry))
    (h : ∀ e ∈ settings, ∀ t, e.2 ≠ .link t) (q : Place) (t : String) :
    (desk settings).disk.at? q ≠ some (.link t) := by
  intro hat
  unfold Disk.at? at hat
  split at hat
  · cases hat
  obtain ⟨e, hfind, he⟩ := Option.map_eq_some_iff.mp hat
  rcases List.mem_cons.mp (List.mem_of_find?_eq_some hfind) with rfl | hmem
  · cases he
  rcases List.mem_cons.mp hmem with rfl | hmem
  · cases he
  · exact h e hmem t he

theorem logged_unlinked (q : Place) (t : String) : logged.disk.at? q ≠ some (.link t) := by
  refine desk_unlinked _ (fun e he t hlink => ?_) q t
  rw [List.mem_singleton.mp he] at hlink
  cases hlink

theorem logged_prepared : (prepared listingRead logged).disk = logged.disk := by
  decide +kernel

theorem logged_untouched : Untouched (· ∈ beside) listingRead logged := by
  refine ⟨nofun, fun hnone => absurd hnone (by decide +kernel), fun path hpath => ?_⟩
  have hpath : path = "nav.jsonl" := by
    cases hpath with
    | shown => rfl
  rw [logged_prepared, hpath]
  intro rest q hpass
  obtain ⟨n, hn, rfl, -⟩ :=
    Disk.passes_straight _ _ _ rest q (by decide +kernel) logged_unlinked hpass
  have hfar : ∀ n < (Disk.namesIn "nav.jsonl").length,
      logged.disk.start "nav.jsonl" ++ (Disk.namesIn "nav.jsonl").take (n + 1) ∉ beside := by
    decide +kernel
  exact hfar n hn

theorem listing_logFile (h : Host) (file : Json)
    (hread : ((Settings.load (some "c.json")).run { h with journal := [] }).1.toOption.map
      (fun base => (logSettings listingRead base).file) = some file) :
    ∃ base, ((Settings.load listingRead.configPath).run { h with journal := [] }).1 = .ok base ∧
      (logSettings listingRead base).file = file := by
  change Option.map _ ((Settings.load listingRead.configPath).run _).1.toOption = _ at hread
  generalize ((Settings.load listingRead.configPath).run { h with journal := [] }).1 = r at hread ⊢
  cases r with
  | error e => cases hread
  | ok base => exact ⟨base, rfl, Option.some.inj hread⟩

theorem logged_keepsLogs : KeepsLogs (· ∈ beside) listingRead logged := by
  intro base hbase _
  obtain ⟨read, hread, hfile⟩ := listing_logFile logged (.str "x.log") (by decide +kernel)
  rw [Except.ok.inj (hread.symm.trans hbase)] at hfile
  rw [logged_prepared]
  refine ⟨"x.log", hfile, by decide +kernel, fun p hp rest q hpass hend => ?_⟩
  have hpaths : ∀ p ∈ LogFile.pathsOf (logged.disk.absolute "x.log") 3,
      (∀ s ∈ Disk.namesIn p, s ≠ "." ∧ s ≠ "..") ∧
      ∀ n < (Disk.namesIn p).length,
        (Disk.namesIn p).drop (n + 1) = [] ∨
          logged.disk.at? (logged.disk.start p ++ (Disk.namesIn p).take (n + 1)) = none →
        logged.disk.start p ++ (Disk.namesIn p).take (n + 1) ∈ beside := by
    decide +kernel
  obtain ⟨hnames, hends⟩ := hpaths p hp
  have hlinks : ∀ r t, ¬ (Disk.groundBut (· ∈ beside) logged.disk).links r t := by
    rintro r t (hlink | ⟨-, r, -, hlink⟩)
    · exact logged_unlinked r t hlink
    · exact logged_unlinked r t hlink
  obtain ⟨n, hn, rfl, rfl⟩ := Disk.passes_straight _ _ _ rest q hnames hlinks hpass
  exact hends n hn hend

theorem desk_keepsLogs : KeepsLogs (· ∈ beside) listingRead (desk []) := by
  intro base hbase hgiven
  obtain ⟨read, hread, hfile⟩ := listing_logFile (desk []) (.str "") (by decide +kernel)
  rw [Except.ok.inj (hread.symm.trans hbase)] at hfile
  rw [hfile] at hgiven
  cases hgiven

theorem desk_same : Disk.SameBut (· ∈ beside) logged.disk (desk []).disk := by
  refine ⟨rfl, rfl, fun q hq => ?_⟩
  have hsettings : ["W", "c.json"] ≠ q := by
    rintro rfl
    exact hq (by decide)
  simp [Disk.at?, logged, desk, List.find?_cons, hsettings]

theorem execute_undisturbed_desk :
    Disk.SameBut (· ∈ beside) logged.disk (desk []).disk ∧
    (∀ i, understand listing = .ok i → Untouched (· ∈ beside) i logged ∧
      KeepsLogs (· ∈ beside) i logged ∧ KeepsLogs (· ∈ beside) i (desk [])) ∧
    ∃ code t t', (execute listing false).run { host := logged } = (.ok code, t) ∧
      (execute listing false).run { host := desk [] } = (.ok code, t') ∧
      t'.output = t.output ∧ Disk.SameBut (· ∈ beside) t.host.disk t'.host.disk := by
  have hrun : ∀ i, understand listing = .ok i → Untouched (· ∈ beside) i logged ∧
      KeepsLogs (· ∈ beside) i logged ∧ KeepsLogs (· ∈ beside) i (desk []) := by
    intro i hi
    rw [understand_listing] at hi
    rw [← Except.ok.inj hi]
    exact ⟨logged_untouched, logged_keepsLogs, desk_keepsLogs⟩
  exact ⟨desk_same, hrun, execute_undisturbed (· ∈ beside) listing false logged (desk []).disk {} {}
    desk_same hrun⟩

/-- Nothing of a crash is printed but on the error stream. -/
theorem reportCrash_output (e : Fault) (s : Session) (hlogs : s.logs.listener = none) :
    ∃ t, (reportCrash e).run s = (.ok .failure, t) ∧ t.output = s.output := by
  have hnone := s.logs.confined_detached (fun _ => True) s.host.disk hlogs
  have hlog := fun n => ((Session.Unheard.refl s (.refl _)).log s s hnone Talk.programName n).output
  unfold reportCrash
  rw [run_bind]
  simp only [Talk.log]
  refine ⟨_, rfl, ?_⟩
  exact hlog _

/-- A log file that the settings ask for and that is no text ends every run before its command. -/
theorem runInvocation_notText (i : Invocation) (interrupted : Bool) (s : Session)
    (base : List (String × Json)) (k : Host) (hlogs : s.logs.listener = none)
    (hload : (Settings.load i.configPath).run { s.host with journal := [] } = (.ok base, k))
    (hgiven : (logSettings i base).file.isGiven = true)
    (htext : ∀ path, (logSettings i base).file ≠ .str path) :
    ∃ t, (runInvocation i interrupted).run s = (.ok .failure, t) ∧ t.output = s.output := by
  have hnone := fun (l : Logs) hl d => l.confined_detached (fun _ => True) d hl
  obtain ⟨t, hread, hunheard⟩ := Talk.perform_unheard _ s _ k hload (hnone _ hlogs _)
  have husual := LogCall.usual_proper k.disk
  have hconfigure := Talk.configureLogs_notText (logSettings i base) t husual.consoleLine
    husual.fileLine hgiven htext
  have hlistener := (t.logs.restart_detached (Logs.levelOfName (logSettings i base).level)).listener
  have hstart : (start i).run s = (.error (.notAPath (logSettings i base).file.kind),
      { t with logs := t.logs.restart (Logs.levelOfName (logSettings i base).level) }) := by
    rw [start, run_bind, hread]
    simp only
    rw [run_bind, hconfigure]
  rw [runInvocation, run_bind, run_observing, hstart]
  obtain ⟨u, hcrash, houtput⟩ := reportCrash_output (.notAPath (logSettings i base).file.kind)
    { t with logs := t.logs.restart (Logs.levelOfName (logSettings i base).level) } hlistener
  exact ⟨u, hcrash, houtput.trans hunheard.output⟩

/-- The same when a whole command line is run. -/
theorem execute_notText (words : List String) (i : Invocation) (interrupted : Bool) (h : Host)
    (m : Moment) (base : List (String × Json)) (hwords : understand words = .ok i)
    (hload : ((Settings.load i.configPath).run { h with journal := [] }).1 = .ok base)
    (hgiven : (logSettings i base).file.isGiven = true)
    (htext : ∀ path, (logSettings i base).file ≠ .str path) :
    ∃ t, (execute words interrupted).run { host := h, moment := m } = (.ok .failure, t) ∧
      t.output = "" := by
  obtain ⟨t, hrun, houtput⟩ := runInvocation_notText i interrupted { host := h, moment := m } base _
    rfl (Prod.ext hload rfl) hgiven htext
  unfold execute
  rw [hwords]
  simp only
  rw [run_bind, hrun]
  exact ⟨_, rfl, houtput⟩

/-- A settings file with a number for the log file. -/
def numberGiven : List (Place × DiskEntry) :=
  [(["W", "c.json"], .file "\x7b\"log_file\":5\x7d".toUTF8)]

/-- A number for the log file ends a command that takes no settings. -/
theorem number_for_logFile : ∃ t t',
    (execute listing false).run { host := desk numberGiven } = (.ok .failure, t) ∧
    (execute listing false).run { host := desk [] } = (.ok .ok, t') ∧
    t.output = "" ∧ t'.output = "u\n" := by
  obtain ⟨base, hload, hfile⟩ := listing_logFile (desk numberGiven) (.int 5) (by decide +kernel)
  obtain ⟨t, hrun, houtput⟩ := execute_notText listing listingRead false (desk numberGiven) {} base
    understand_listing hload (by rw [hfile]; decide) (by rw [hfile]; nofun)
  have hlists : ((execute listing false).run { host := desk [] }).1 = .ok .ok ∧
      ((execute listing false).run { host := desk [] }).2.output = "u\n" := by
    decide +kernel
  generalize (execute listing false).run { host := desk [] } = o at hlists ⊢
  obtain ⟨r, t'⟩ := o
  exact ⟨t, t', hrun, congrArg (·, t') hlists.1, houtput, hlists.2⟩

end CommandLine

end DocNavigation
