import DocNavigation.Proofs.Disk.Nulls
import DocNavigation.Session

/-!
Logs through any sequence of calls. One handler of our own and a listener behind it come and go
together, and while they are there logs count as configured. They count as configured without them
after a forced call that found no sinks, until logs are shut down or a forced call finds some.
-/

namespace DocNavigation

namespace Logs

/-- One handler of our own, and a listener with sinks behind it. -/
structure Attached (l : Logs) : Prop where
  ours : l.ours = [.queue]
  listener : ∃ sinks, sinks ≠ [] ∧ l.listener = some sinks

structure Detached (l : Logs) : Prop where
  ours : l.ours = []
  listener : l.listener = none

/-- Taken for configured although nothing is attached. -/
structure Stale (l : Logs) : Prop where
  configured : l.isConfigured = true
  detached : l.Detached

structure Unconfigured (l : Logs) : Prop where
  isConfigured : l.isConfigured = false
  detached : l.Detached

/-- Handler and listener come and go together, and with them logs count as configured. -/
structure Sound (l : Logs) : Prop where
  cases : l.Attached ∨ l.Detached
  configured : l.Attached → l.isConfigured = true

theorem Attached.not_detached (l : Logs) (h : l.Attached) : ¬ l.Detached := by
  intro h'
  have hours := h.ours.symm.trans h'.ours
  cases hours

theorem Attached.not_stale (l : Logs) (h : l.Attached) : ¬ l.Stale :=
  fun hstale => h.not_detached l hstale.detached

theorem detach_detached (l : Logs) : l.detach.Detached :=
  ⟨by simp [detach, foreign, ours], rfl⟩

theorem detach_foreign (l : Logs) : l.detach.foreign = l.foreign := by
  simp [detach, foreign]

theorem restart_detached (l : Logs) (level : Nat) : (l.restart level).Detached :=
  let ⟨hours, hlistener⟩ := l.detach_detached
  ⟨hours, hlistener⟩

theorem restart_foreign (l : Logs) (level : Nat) : (l.restart level).foreign = l.foreign :=
  l.detach_foreign

theorem shutdown_foreign (l : Logs) : l.shutdown.foreign = l.foreign :=
  l.detach_foreign

theorem shutdown_detached (l : Logs) : l.shutdown.Detached :=
  let ⟨hours, hlistener⟩ := l.detach_detached
  ⟨hours, hlistener⟩

theorem restart_stale (l : Logs) (level : Nat) :
    (l.restart level).Stale ↔ l.isConfigured = true :=
  ⟨fun h => h.configured, fun h => ⟨h, l.restart_detached level⟩⟩

theorem shutdown_not_stale (l : Logs) : ¬ l.shutdown.Stale := by
  intro h
  cases h.configured

theorem attach_nil (l : Logs) : l.attach [] = l := rfl

theorem attach_attached (l : Logs) (sinks : List LogSink) (h : l.Detached) (hs : sinks ≠ []) :
    (l.attach sinks).Attached := by
  have hours := h.ours
  rw [attach, if_neg (by simpa using hs)]
  refine ⟨?_, sinks, hs, rfl⟩
  unfold ours at hours ⊢
  rw [List.filter_append, hours]
  rfl

theorem attach_configured (l : Logs) (sinks : List LogSink) :
    (l.attach sinks).isConfigured = true ↔ l.isConfigured = true ∨ sinks ≠ [] := by
  unfold attach
  cases sinks <;> simp

theorem attach_foreign (l : Logs) (sinks : List LogSink) :
    (l.attach sinks).foreign = l.foreign := by
  unfold attach
  split
  · rfl
  · simp [foreign]

theorem addForeign_foreign (l : Logs) : l.addForeign.foreign = l.foreign ++ [.foreign] := by
  simp [addForeign, foreign]

theorem addForeign_ours (l : Logs) : l.addForeign.ours = l.ours := by
  simp [addForeign, ours]

theorem Detached.sound (l : Logs) (h : l.Detached) : l.Sound :=
  ⟨.inr h, fun ha => absurd h ha.not_detached⟩

theorem addForeign_attached (l : Logs) : l.addForeign.Attached ↔ l.Attached :=
  ⟨fun ⟨hours, hlistener⟩ => ⟨l.addForeign_ours ▸ hours, hlistener⟩,
    fun ⟨hours, hlistener⟩ => ⟨l.addForeign_ours.trans hours, hlistener⟩⟩

theorem addForeign_detached (l : Logs) : l.addForeign.Detached ↔ l.Detached :=
  ⟨fun ⟨hours, hlistener⟩ => ⟨l.addForeign_ours ▸ hours, hlistener⟩,
    fun ⟨hours, hlistener⟩ => ⟨l.addForeign_ours.trans hours, hlistener⟩⟩

theorem addForeign_sound (l : Logs) (h : l.Sound) : l.addForeign.Sound :=
  ⟨h.cases.imp l.addForeign_attached.mpr l.addForeign_detached.mpr,
    fun ha => h.configured (l.addForeign_attached.mp ha)⟩

theorem addForeign_stale (l : Logs) : l.addForeign.Stale ↔ l.Stale :=
  ⟨fun ⟨hconfigured, h⟩ => ⟨hconfigured, l.addForeign_detached.mp h⟩,
    fun ⟨hconfigured, h⟩ => ⟨hconfigured, l.addForeign_detached.mpr h⟩⟩

end Logs

namespace Disk

/-- Opens a log file by its absolute path. -/
def openLog (target : String) : DiskAct String := do
  if !(← get).isThere (Path.folder target) then makeFolders (Path.folder target)
  appendFile target .empty
  return target

theorem run_openAt (path : String) (d : Disk) :
    (LogFile.openAt path).run d = (openLog (d.absolute path)).run d := by
  rw [LogFile.openAt, Effect.run_bind, Effect.run_get]
  rfl

theorem spared_openLog (target : String) (hnull : target.toList.contains '\x00' = false) :
    Spared (openLog target) := by
  have hfolder := Path.folder_noNull _ hnull
  have hfile : Spared (do appendFile target .empty; return target) :=
    Spared.bind _ _ (spared_appendFile target hnull _) fun _ => spared_pure _
  refine Spared.bind _ _ spared_get fun d => ?_
  simp only
  split
  · exact Spared.bind _ _ (spared_makeFolders _ hfolder) fun _ => hfile
  · exact hfile

end Disk

namespace LogSettings

/-- What configuring never fails on: layouts with a slot, and for the log file, if one is asked for,
a text that spells a path without null characters. -/
structure Proper (c : LogSettings) (d : Disk) : Prop where
  consoleLine : (LogLayout.ofText? c.consoleLine "").isSome = true
  fileLine : (LogLayout.ofText? c.fileLine c.moment).isSome = true
  file : c.file.isGiven = true →
    ∃ path, c.file = .str path ∧ (d.absolute path).toList.contains '\x00' = false

theorem run_layout (line moment : String) (s : Session) : (layout line moment).run s =
    ((LogLayout.ofText? line moment).elim (.error (.logLine line)) .ok, s) := by
  unfold layout
  cases LogLayout.ofText? line moment <;> rfl

/-- What gathering sinks comes to. -/
structure Gathered (c : LogSettings) (s : Session) (o : Except Fault (List LogSink) × Session) :
    Prop where
  logs : o.2.logs = s.logs
  console : c.onConsole = true → ∀ sinks, o.1 = .ok sinks → sinks ≠ []
  returns : c.Proper s.host.disk → ∃ sinks, o.1 = .ok sinks

theorem run_fileSink (c : LogSettings) (level : Nat) (layout : LogLayout) (path : String)
    (s : Session) : ((c.fileSink level layout path).run s).2.logs = s.logs ∧
      ((s.host.disk.absolute path).toList.contains '\x00' = false →
        ∃ sinks, ((c.fileSink level layout path).run s).1 = .ok sinks) := by
  unfold fileSink
  rw [Effect.run_bind, Effect.run_get]
  cases hopen : (LogFile.openAt path).run s.host.disk with
  | mk r d =>
    simp only [hopen]
    cases r with
    | ok target => exact ⟨rfl, fun _ => ⟨_, rfl⟩⟩
    | error e =>
      cases e with
      | nullByte =>
        refine ⟨rfl, fun hnull => ?_⟩
        rw [Disk.run_openAt] at hopen
        exact absurd (congrArg Prod.fst hopen) (Disk.spared_openLog _ hnull _)
      | device => exact ⟨rfl, fun _ => ⟨_, rfl⟩⟩
      | refused r p t => exact ⟨rfl, fun _ => ⟨_, rfl⟩⟩

/-- Adds the log file, if one is asked for, to the sinks that are there. -/
def withFile (c : LogSettings) (level : Nat) (layout : LogLayout) (shown : List LogSink) :
    Talk (List LogSink) := do
  if !c.file.isGiven then return shown
  match c.file with
  | .str path => return shown ++ (← c.fileSink level layout path)
  | v => throw (.notAPath v.kind)

theorem run_withFile (c : LogSettings) (level : Nat) (layout : LogLayout) (shown : List LogSink)
    (hshown : c.onConsole = true → shown ≠ []) (s : Session) :
    Gathered c s ((c.withFile level layout shown).run s) := by
  unfold withFile
  by_cases hgiven : c.file.isGiven = true
  · rw [if_neg (by simpa using hgiven)]
    split
    case h_1 path hpath =>
      obtain ⟨hlogs, hreturns⟩ := run_fileSink c level layout path s
      rw [Effect.run_bind]
      generalize (c.fileSink level layout path).run s = o at hlogs hreturns
      obtain ⟨r, t⟩ := o
      cases r with
      | error e =>
        refine ⟨hlogs, fun _ => nofun, fun h => ?_⟩
        obtain ⟨path', hsame, hnull⟩ := h.file hgiven
        rw [hpath] at hsame
        cases hsame
        obtain ⟨sinks, hsinks⟩ := hreturns hnull
        cases hsinks
      | ok sinks =>
        refine ⟨hlogs, fun hon all hall => ?_, fun _ => ⟨_, rfl⟩⟩
        cases hall
        exact List.append_ne_nil_of_left_ne_nil (hshown hon) _
    case h_2 v hv =>
      refine ⟨rfl, fun _ => nofun, fun h => ?_⟩
      obtain ⟨path, hpath, -⟩ := h.file hgiven
      exact absurd hpath (hv path)
  · rw [if_pos (by simpa using hgiven)]
    refine ⟨rfl, fun hon all hall => ?_, fun _ => ⟨_, rfl⟩⟩
    cases hall
    exact hshown hon

theorem run_sinks (c : LogSettings) (level : Nat) (s : Session) :
    Gathered c s ((c.sinks level).run s) := by
  unfold sinks
  rw [Effect.run_bind, run_layout]
  cases hconsole : LogLayout.ofText? c.consoleLine "" with
  | none => exact ⟨rfl, fun _ => nofun, fun h => by simpa [hconsole] using h.consoleLine⟩
  | some consoleLayout =>
    simp only [Option.elim]
    rw [Effect.run_bind, run_layout]
    cases hfile : LogLayout.ofText? c.fileLine c.moment with
    | none => exact ⟨rfl, fun _ => nofun, fun h => by simpa [hfile] using h.fileLine⟩
    | some fileLayout =>
      apply run_withFile
      intro hon
      rw [if_pos hon]
      exact List.cons_ne_nil _ _

end LogSettings

namespace Talk

/-- What gathering sinks comes to once the old ones are gone. -/
def gather (c : LogSettings) (s : Session) : Except Fault (List LogSink) × Session :=
  let level := Logs.levelOfName c.level
  (c.sinks level).run { s with logs := s.logs.restart level }

theorem gathered (c : LogSettings) (s : Session) :
    c.Gathered { s with logs := s.logs.restart (Logs.levelOfName c.level) } (gather c s) :=
  c.run_sinks (Logs.levelOfName c.level) _

/-- The sinks that there are for a call to attach: none if it fails on the way to them. -/
def newSinks (c : LogSettings) (s : Session) : List LogSink :=
  (gather c s).1.toOption.getD []

theorem run_changeLogs (f : Logs → Logs) (s : Session) :
    (changeLogs f).run s = (.ok (), { s with logs := f s.logs }) := rfl

theorem run_configureLogs (c : LogSettings) (force : Bool) (s : Session) :
    (configureLogs c force).run s =
      if s.logs.keeps force then (.ok (), s)
      else match gather c s with
        | (.ok sinks, t) => (.ok (), { t with logs := t.logs.attach sinks })
        | (.error e, t) => (.error e, t) := by
  unfold configureLogs gather
  rw [Effect.run_bind, Effect.run_get]
  simp only
  by_cases hkeeps : s.logs.keeps force = true
  · rw [if_pos hkeeps, if_pos hkeeps, Effect.run_pure]
  · rw [if_neg hkeeps, if_neg hkeeps, Effect.run_bind, run_changeLogs]
    simp only
    rw [Effect.run_bind]
    generalize (c.sinks _).run _ = o
    obtain ⟨r, t⟩ := o
    cases r <;> rfl

/-- Without force, configured logs are left as they are; else the old handler gives way to the new
sinks, or to nothing. -/
theorem configureLogs_logs (c : LogSettings) (force : Bool) (s : Session) :
    ((configureLogs c force).run s).2.logs =
      if s.logs.keeps force then s.logs
      else (s.logs.restart (Logs.levelOfName c.level)).attach (newSinks c s) := by
  have hlogs := (gathered c s).logs
  rw [run_configureLogs, newSinks]
  by_cases hkeeps : s.logs.keeps force = true
  · rw [if_pos hkeeps, if_pos hkeeps]
  · rw [if_neg hkeeps, if_neg hkeeps]
    generalize gather c s = o at hlogs
    obtain ⟨r, t⟩ := o
    cases r with
    | ok sinks => exact congrArg (Logs.attach · sinks) hlogs
    | error e => exact hlogs

theorem configureLogs_returns (c : LogSettings) (force : Bool) (s : Session)
    (h : c.Proper s.host.disk) : ∃ t, (configureLogs c force).run s = (.ok (), t) := by
  obtain ⟨sinks, hsinks⟩ := (gathered c s).returns h
  rw [run_configureLogs]
  by_cases hkeeps : s.logs.keeps force = true
  · exact ⟨s, if_pos hkeeps⟩
  · rw [if_neg hkeeps]
    generalize gather c s = o at hsinks
    obtain ⟨r, t⟩ := o
    cases hsinks
    exact ⟨_, rfl⟩

/-- The console is a sink, so that a call that asks for it attaches the logs, unless it keeps logs
that are stale. -/
theorem configureLogs_console (c : LogSettings) (force : Bool) (s t : Session)
    (hsound : s.logs.Sound) (hon : c.onConsole = true)
    (hrun : (configureLogs c force).run s = (.ok (), t)) :
    t.logs.Attached ↔ force = true ∨ ¬ s.logs.Stale := by
  rw [run_configureLogs] at hrun
  by_cases hkeeps : s.logs.keeps force = true
  · rw [if_pos hkeeps] at hrun
    cases hrun
    obtain ⟨hconfigured, hforce⟩ := Bool.and_eq_true_iff.mp hkeeps
    have hforce : force = false := by simpa using hforce
    simp only [hforce, Bool.false_eq_true, false_or]
    constructor
    · exact fun h => h.not_stale
    · intro h
      exact hsound.cases.resolve_right fun hdetached => h ⟨hconfigured, hdetached⟩
  · rw [if_neg hkeeps] at hrun
    have hgathered := gathered c s
    generalize gather c s = o at hgathered hrun
    obtain ⟨r, u⟩ := o
    cases r with
    | error e => cases hrun
    | ok sinks =>
      cases hrun
      have hdetached : u.logs.Detached := by
        rw [hgathered.logs]
        exact s.logs.restart_detached _
      refine iff_of_true (Logs.attach_attached _ _ hdetached (hgathered.console hon sinks rfl)) ?_
      by_contra hno
      rw [not_or, not_not] at hno
      exact hkeeps (by simp [Logs.keeps, hno.1, hno.2.configured])

end Talk

/-- What may happen in a program: the operations on its logs, handlers attached by others, and all
else, which leaves its logs alone. -/
inductive LogCall where
  | configure (c : LogSettings) (force : Bool)
  | shutdown
  | addForeign
  | meanwhile (after : Session)

namespace LogCall

/-- What the call leaves behind; that it fails is no end of the program. -/
def apply (s : Session) : LogCall → Session
  | configure c force => ((Talk.configureLogs c force).run s).2
  | shutdown => (Talk.shutdownLogs.run s).2
  | addForeign => { s with logs := s.logs.addForeign }
  | meanwhile after => { after with logs := s.logs }

def run (s : Session) (calls : List LogCall) : Session :=
  calls.foldl apply s

/-- The handlers that others attach by the call. -/
def added : LogCall → List LogHandler
  | addForeign => [.foreign]
  | configure .. | shutdown | meanwhile _ => []

/-- Forced onto configured logs, the call has no sinks for them. -/
def Strands (s : Session) : LogCall → Prop
  | configure c force => force = true ∧ s.logs.isConfigured = true ∧ Talk.newSinks c s = []
  | _ => False

/-- The call shuts the logs down, or is forced and has sinks for them. -/
def Renews (s : Session) : LogCall → Prop
  | configure c force => force = true ∧ Talk.newSinks c s ≠ []
  | shutdown => True
  | _ => False

/-- A call stranded the logs, and none has renewed them since. -/
def Stranded (s : Session) (calls : List LogCall) : Prop :=
  ∃ before call after, calls = before ++ call :: after ∧ call.Strands (run s before) ∧
    ∀ between next rest, after = between ++ next :: rest →
      ¬ next.Renews (run s (before ++ call :: between))

theorem run_snoc (s : Session) (calls : List LogCall) (call : LogCall) :
    run s (calls ++ [call]) = apply (run s calls) call := by
  rw [run, List.foldl_append]
  rfl

theorem stranded_snoc (s : Session) (calls : List LogCall) (call : LogCall) :
    Stranded s (calls ++ [call]) ↔ call.Strands (run s calls) ∨
      (Stranded s calls ∧ ¬ call.Renews (run s calls)) := by
  constructor
  · intro ⟨before, c, after, hcalls, hstrands, hsince⟩
    rcases List.eq_nil_or_concat' after with rfl | ⟨after, last, rfl⟩
    · obtain ⟨rfl, hlast⟩ := List.append_inj' hcalls rfl
      cases hlast
      exact .inl hstrands
    · rw [← List.cons_append, ← List.append_assoc] at hcalls
      obtain ⟨rfl, hlast⟩ := List.append_inj' hcalls rfl
      cases hlast
      refine .inr ⟨⟨before, c, after, rfl, hstrands, ?_⟩, hsince after call [] rfl⟩
      intro between next rest hafter
      exact hsince between next (rest ++ [call]) (by simp [hafter])
  · rintro (hstrands | ⟨⟨before, c, after, rfl, hstrands, hsince⟩, hkept⟩)
    · exact ⟨calls, call, [], rfl, hstrands, fun between next rest h => by simp at h⟩
    · refine ⟨before, c, after ++ [call], by simp, hstrands, ?_⟩
      intro between next rest hafter
      rcases List.eq_nil_or_concat' rest with rfl | ⟨rest, last, rfl⟩
      · obtain ⟨rfl, hlast⟩ := List.append_inj' hafter rfl
        cases hlast
        exact hkept
      · rw [← List.cons_append, ← List.append_assoc] at hafter
        exact hsince between next rest (List.append_inj' hafter rfl).1

theorem apply_configure (s : Session) (c : LogSettings) (force : Bool) :
    (apply s (configure c force)).logs = if s.logs.keeps force then s.logs
      else (s.logs.restart (Logs.levelOfName c.level)).attach (Talk.newSinks c s) :=
  Talk.configureLogs_logs c force s

theorem apply_shutdown (s : Session) : (apply s shutdown).logs = s.logs.shutdown := rfl

theorem apply_addForeign (s : Session) : (apply s addForeign).logs = s.logs.addForeign := rfl

theorem apply_meanwhile (s after : Session) : (apply s (meanwhile after)).logs = s.logs := rfl

theorem apply_foreign (s : Session) (call : LogCall) :
    (apply s call).logs.foreign = s.logs.foreign ++ added call := by
  cases call with
  | configure c force =>
    rw [apply_configure, added, List.append_nil]
    split
    · rfl
    · rw [Logs.attach_foreign, Logs.restart_foreign]
  | shutdown => rw [apply_shutdown, Logs.shutdown_foreign, added, List.append_nil]
  | addForeign => rw [apply_addForeign, Logs.addForeign_foreign, added]
  | meanwhile after => rw [apply_meanwhile, added, List.append_nil]

theorem apply_sound (s : Session) (call : LogCall) (h : s.logs.Sound) :
    (apply s call).logs.Sound := by
  cases call with
  | configure c force =>
    have hdetached := s.logs.restart_detached (Logs.levelOfName c.level)
    rw [apply_configure]
    by_cases hkeeps : s.logs.keeps force = true
    · rw [if_pos hkeeps]
      exact h
    rw [if_neg hkeeps]
    by_cases hsinks : Talk.newSinks c s = []
    · rw [hsinks, Logs.attach_nil]
      exact hdetached.sound
    · refine ⟨.inl (Logs.attach_attached _ _ hdetached hsinks), fun _ => ?_⟩
      exact (Logs.attach_configured _ _).mpr (.inr hsinks)
  | shutdown => exact s.logs.shutdown_detached.sound
  | addForeign => exact s.logs.addForeign_sound h
  | meanwhile after => exact h

/-- Logs get stale by a call that strands them, and stay so until a call renews them. -/
theorem apply_stale (s : Session) (call : LogCall) :
    (apply s call).logs.Stale ↔ call.Strands s ∨ (s.logs.Stale ∧ ¬ call.Renews s) := by
  cases call with
  | configure c force =>
    have hdetached := s.logs.restart_detached (Logs.levelOfName c.level)
    rw [apply_configure, Strands, Renews]
    by_cases hkeeps : s.logs.keeps force = true
    · have hforce : force = false := by simpa using (Bool.and_eq_true_iff.mp hkeeps).2
      rw [if_pos hkeeps]
      simp [hforce]
    rw [if_neg hkeeps]
    by_cases hsinks : Talk.newSinks c s = []
    · rw [hsinks, Logs.attach_nil, Logs.restart_stale]
      have hconfigured : s.logs.isConfigured = true → force = true := by
        simpa [Logs.keeps] using hkeeps
      constructor
      · intro h
        exact .inl ⟨hconfigured h, h, rfl⟩
      · rintro (⟨-, h, -⟩ | ⟨h, -⟩)
        · exact h
        · exact h.configured
    · have hnot := (Logs.attach_attached _ _ hdetached hsinks).not_stale
      have hforce : s.logs.Stale → force = true := by
        intro h
        simpa [Logs.keeps, h.configured] using hkeeps
      constructor
      · intro h
        exact absurd h hnot
      · rintro (⟨-, -, h⟩ | ⟨h, hkept⟩)
        · exact absurd h hsinks
        · exact absurd ⟨hforce h, hsinks⟩ hkept
  | shutdown => simp [apply_shutdown, Logs.shutdown_not_stale, Strands, Renews]
  | addForeign => simp [apply_addForeign, Logs.addForeign_stale, Strands, Renews]
  | meanwhile after => simp [apply_meanwhile, Strands, Renews]

/-- What is known of the logs after some calls. -/
structure Tracked (s : Session) (calls : List LogCall) : Prop where
  sound : (run s calls).logs.Sound
  foreign : (run s calls).logs.foreign = s.logs.foreign ++ calls.flatMap added
  stale : (run s calls).logs.Stale ↔ Stranded s calls

theorem not_stranded_nil (s : Session) : ¬ Stranded s [] := by
  intro ⟨before, call, after, h, _⟩
  simp at h

theorem run_tracked (s : Session) (h : s.logs.Unconfigured) (calls : List LogCall) :
    Tracked s calls := by
  induction calls using List.reverseRecOn with
  | nil =>
    refine ⟨h.detached.sound, by simp [run], iff_of_false ?_ (not_stranded_nil s)⟩
    intro hstale
    cases h.isConfigured.symm.trans hstale.configured
  | append_singleton calls call ih =>
    constructor
    · rw [run_snoc]
      exact apply_sound _ call ih.sound
    · rw [run_snoc, apply_foreign, ih.foreign, List.flatMap_append, List.append_assoc]
      simp
    · rw [run_snoc, apply_stale, ih.stale, stranded_snoc]

/-- From unconfigured logs, whatever calls are made, the logs are attached or detached as a whole,
and attached logs count as configured. The converse holds unless a forced call left them stranded.
Handlers of others stay in their order, and a call that asks for the console attaches the logs,
unless it is an unforced one that comes upon stranded logs. -/
theorem logs_after_calls (s : Session) (h : s.logs.Unconfigured) (calls : List LogCall) :
    let l := (run s calls).logs
    (l.Attached ∨ l.Detached) ∧ (l.Attached → l.isConfigured = true) ∧
    ((l.isConfigured = true ↔ l.Attached) ↔ ¬ Stranded s calls) ∧
    l.foreign = s.logs.foreign ++ calls.flatMap added ∧
    ∀ c force, c.onConsole = true →
      (∀ t, (Talk.configureLogs c force).run (run s calls) = (.ok (), t) →
        (t.logs.Attached ↔ force = true ∨ ¬ Stranded s calls)) ∧
      (c.Proper (run s calls).host.disk →
        ∃ t, (Talk.configureLogs c force).run (run s calls) = (.ok (), t)) := by
  intro l
  obtain ⟨hsound, hforeign, hstale⟩ := run_tracked s h calls
  refine ⟨hsound.cases, hsound.configured, ?_, hforeign, fun c force hon => ⟨fun t ht => ?_, ?_⟩⟩
  · rw [← hstale]
    constructor
    · intro hiff hstale
      exact (hiff.mp hstale.configured).not_stale _ hstale
    · intro hnot
      refine ⟨fun hconfigured => ?_, hsound.configured⟩
      exact hsound.cases.resolve_right fun hdetached => hnot ⟨hconfigured, hdetached⟩
  · rw [← hstale]
    exact Talk.configureLogs_console c force _ t hsound hon ht
  · exact Talk.configureLogs_returns c force _

def started : Session where
  host := { disk := { workdir := [] } }
  logs := { handlers := [.foreign] }

/-- The console is asked for, and then done without. -/
def quiet : List LogCall :=
  [configure {} false, configure { onConsole := false } true]

theorem started_unconfigured : started.logs.Unconfigured :=
  ⟨rfl, rfl, rfl⟩

theorem usual_proper (d : Disk) : ({} : LogSettings).Proper d :=
  ⟨by decide +kernel, by decide +kernel, nofun⟩

theorem run_quiet : (run started quiet).logs =
    { threshold := 20, handlers := [.foreign], isConfigured := true } := by
  decide +kernel

theorem logs_after_quiet : started.logs.Unconfigured ∧ Stranded started quiet ∧
    ({} : LogSettings).onConsole = true ∧ ({} : LogSettings).Proper (run started quiet).host.disk ∧
    ∃ t, (Talk.configureLogs {} false).run (run started quiet) = (.ok (), t) ∧
      ¬ t.logs.Attached := by
  have hafter := logs_after_calls started started_unconfigured quiet
  have hstranded : Stranded started quiet := by
    by_contra hno
    have hattached := (hafter.2.2.1.mpr hno).mp (by rw [run_quiet])
    rw [run_quiet] at hattached
    cases hattached.ours
  obtain ⟨hwhen, hreturns⟩ := hafter.2.2.2.2 {} false rfl
  obtain ⟨t, ht⟩ := hreturns (usual_proper _)
  refine ⟨started_unconfigured, hstranded, rfl, usual_proper _, t, ht, ?_⟩
  rw [hwhen t ht]
  simpa using hstranded

/-- Logs without a handler of ours can count as configured, and asking for the console then attaches
nothing. -/
theorem configured_unattached : started.logs.Unconfigured ∧
    ¬ ((run started quiet).logs.isConfigured = true ↔ (run started quiet).logs.Attached) ∧
    ∃ t, (Talk.configureLogs {} false).run (run started quiet) = (.ok (), t) ∧ t.logs.Detached := by
  have hdetached : (run started quiet).logs.Detached := by
    rw [run_quiet]
    exact ⟨rfl, rfl⟩
  have hconfigured : (run started quiet).logs.isConfigured = true := by rw [run_quiet]
  have hnot := fun h : (run started quiet).logs.Attached => h.not_detached _ hdetached
  refine ⟨started_unconfigured, fun h => hnot (h.mp hconfigured), _, ?_, hdetached⟩
  rw [Talk.run_configureLogs, if_pos (by rw [run_quiet]; rfl)]

end LogCall

end DocNavigation
