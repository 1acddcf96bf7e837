import DocNavigation.Proofs.Log.Confined
import DocNavigation.Proofs.Log.Lifecycle

/-!
Sessions that go on beside each other. What they log makes no difference between them as long as their
log files are kept aside; what they do and print is the same.
-/

namespace DocNavigation

open Effect

/-- What lines for the sink do to a disk is aside. -/
def SinkTarget.Confined (aside : Place → Prop) (d : Disk) : SinkTarget → Prop
  | .console => True
  | .file path _ backups =>
    LogFile.Named path ∧ ∀ p ∈ LogFile.pathsOf path backups, d.Confined aside p

def Logs.Confined (aside : Place → Prop) (d : Disk) (l : Logs) : Prop :=
  ∀ sink ∈ l.listener.getD [], sink.target.Confined aside d

theorem Logs.confined_detached (aside : Place → Prop) (d : Disk) (l : Logs)
    (h : l.listener = none) : l.Confined aside d := by
  intro sink hsink
  rw [h] at hsink
  cases hsink

namespace Session

section
variable (aside : Place → Prop)

/-- Nothing came of the first session but lines in logs and on the error stream. -/
structure Unheard (d₀ : Disk) (s t : Session) : Prop where
  output : t.output = s.output
  logs : t.logs = s.logs
  disk : Disk.ChangedAside aside d₀ s.host.disk t.host.disk
  vars : t.host.vars = s.host.vars
  homes : t.host.homes = s.host.homes
  web : t.host.web = s.host.web
  requests : t.host.requests = s.host.requests

/-- Sessions that printed the same, on machines beside each other. -/
structure Beside (d₀ d₀' : Disk) (s s' : Session) : Prop where
  host : Host.Beside aside d₀ d₀' s.host s'.host
  output : s'.output = s.output
  logs : s.logs.Confined aside d₀
  logs' : s'.logs.Confined aside d₀'

end

variable {aside : Place → Prop} {d₀ d₀' : Disk}

theorem Unheard.refl (s : Session) (h : Disk.Later aside d₀ s.host.disk) : Unheard aside d₀ s s :=
  ⟨rfl, rfl, ⟨.refl _, h⟩, rfl, rfl, rfl, rfl⟩

theorem Unheard.trans (s t u : Session) (h : Unheard aside d₀ s t) (h' : Unheard aside d₀ t u) :
    Unheard aside d₀ s u where
  output := h'.output.trans h.output
  logs := h'.logs.trans h.logs
  disk := ⟨h.disk.same.trans _ _ _ h'.disk.same, h'.disk.later⟩
  vars := h'.vars.trans h.vars
  homes := h'.homes.trans h.homes
  web := h'.web.trans h.web
  requests := h'.requests.trans h.requests

/-- What goes by unheard does so under any logs. -/
theorem Unheard.relog (s t : Session) (h : Unheard aside d₀ s t) (l : Logs) :
    Unheard aside d₀ { s with logs := l } { t with logs := l } :=
  ⟨h.output, rfl, h.disk, h.vars, h.homes, h.web, h.requests⟩

theorem Unheard.host (s t : Session) (h : Unheard aside d₀ s t)
    (hlater : Disk.Later aside d₀ s.host.disk) : Host.Beside aside d₀ d₀ s.host t.host :=
  ⟨⟨h.disk.same, hlater, h.disk.later⟩, h.vars, h.homes, h.web, h.requests⟩

/-- What is shown on the error stream or on the console goes by unheard. -/
theorem Unheard.shown (s t : Session) (h : Unheard aside d₀ s t) (errors console : String) :
    Unheard aside d₀ s { t with errors := errors, console := console } :=
  ⟨h.output, h.logs, h.disk, h.vars, h.homes, h.web, h.requests⟩

theorem Unheard.write (s t : Session) (h : Unheard aside d₀ s t) (target : SinkTarget)
    (htarget : target.Confined aside d₀) (line : String) :
    Unheard aside d₀ s (t.write target line) := by
  cases target with
  | console => exact h.shown s t _ _
  | file path maxBytes backups =>
    have hdisk := LogFile.preserves_append path line maxBytes backups htarget.1 htarget.2 _ h.disk
    exact ⟨h.output, h.logs, hdisk, h.vars, h.homes, h.web, h.requests⟩

theorem Unheard.deliver (s t : Session) (h : Unheard aside d₀ s t) (r : LogRecord) (sink : LogSink)
    (hsink : sink.target.Confined aside d₀) : Unheard aside d₀ s (Session.deliver r t sink) := by
  unfold Session.deliver
  split
  · exact h
  · split
    · exact h.write s t _ hsink _
    · exact h

theorem Unheard.foldl (s t : Session) (h : Unheard aside d₀ s t) (r : LogRecord)
    (sinks : List LogSink) (hsinks : ∀ sink ∈ sinks, sink.target.Confined aside d₀) :
    Unheard aside d₀ s (sinks.foldl (Session.deliver r) t) := by
  induction sinks generalizing t with
  | nil => exact h
  | cons sink sinks ih =>
    rw [List.forall_mem_cons] at hsinks
    exact ih _ (h.deliver s t r sink hsinks.1) hsinks.2

theorem Unheard.log (s t : Session) (h : Unheard aside d₀ s t) (hlogs : s.logs.Confined aside d₀)
    (logger : String) (n : Note) : Unheard aside d₀ s (t.log logger n) := by
  unfold Session.log
  split
  · exact h
  split
  · split
    · exact h
    · exact h.shown s t _ _
  · apply h.foldl
    rw [h.logs]
    exact hlogs

theorem Unheard.foldl_log (s t : Session) (h : Unheard aside d₀ s t)
    (hlogs : s.logs.Confined aside d₀) (ns : List Note) :
    Unheard aside d₀ s (ns.foldl (·.log Talk.programName ·) t) := by
  induction ns generalizing t with
  | nil => exact h
  | cons n ns ih => exact ih _ (h.log s t hlogs _ n)

section
variable (s s' t : Session) (h : Beside aside d₀ d₀' s s')
include h

theorem Beside.left (ht : Unheard aside d₀ s t) : Beside aside d₀ d₀' t s' where
  host :=
    { disk := ⟨(ht.disk.same.symm _ _).trans _ _ _ h.host.disk.same, ht.disk.later,
        h.host.disk.later'⟩
      vars := h.host.vars.trans ht.vars.symm
      homes := h.host.homes.trans ht.homes.symm
      web := h.host.web.trans ht.web.symm
      requests := h.host.requests.trans ht.requests.symm }
  output := h.output.trans ht.output.symm
  logs := by rw [ht.logs]; exact h.logs
  logs' := h.logs'

theorem Beside.right (ht : Unheard aside d₀' s' t) : Beside aside d₀ d₀' s t where
  host :=
    { disk := ⟨h.host.disk.same.trans _ _ _ ht.disk.same, h.host.disk.later, ht.disk.later⟩
      vars := ht.vars.trans h.host.vars
      homes := ht.homes.trans h.host.homes
      web := ht.web.trans h.host.web
      requests := ht.requests.trans h.host.requests }
  output := ht.output.trans h.output
  logs := h.logs
  logs' := by rw [ht.logs]; exact h.logs'

end

section
variable (s s' t t' : Session) (h h' : Host)

/-- Sessions of which nothing was heard since machines beside each other are beside each other. -/
theorem Unheard.beside (hhost : Host.Beside aside h.disk h'.disk h h') (houtput : s'.output = s.output)
    (ht : Unheard aside h.disk { s with host := h, logs := t.logs } t)
    (ht' : Unheard aside h'.disk { s' with host := h', logs := t'.logs } t')
    (hlogs : t.logs.Confined aside h.disk) (hlogs' : t'.logs.Confined aside h'.disk) :
    Beside aside h.disk h'.disk t t' := by
  have hstart : Beside aside h.disk h'.disk { s with host := h, logs := t.logs }
      { s' with host := h', logs := t'.logs } := ⟨hhost, houtput, hlogs, hlogs'⟩
  exact (hstart.left _ _ t ht).right _ _ t' ht'

end

/-- Whatever is logged makes no difference. -/
theorem Beside.logged (s s' : Session) (h : Beside aside d₀ d₀' s s') (ns ns' : List Note) :
    Beside aside d₀ d₀' (ns.foldl (·.log Talk.programName ·) s)
      (ns'.foldl (·.log Talk.programName ·) s') := by
  have hleft := (Unheard.refl s h.host.disk.later).foldl_log s s h.logs ns
  have hright := (Unheard.refl s' h.host.disk.later').foldl_log s' s' h.logs' ns'
  exact (h.left s s' _ hleft).right _ s' _ hright

end Session

namespace Talk

variable {aside : Place → Prop} {d₀ d₀' : Disk} {α β : Type}

theorem twins_print (line : String) :
    Twins (Session.Beside aside d₀ d₀') Eq (print line) (print line) := by
  intro s s' h
  refine .ok _ _ _ _ rfl ⟨h.host, ?_, h.logs, h.logs'⟩
  simp only [h.output]

theorem twins_printAll (lines : List String) :
    Twins (Session.Beside aside d₀ d₀') Eq (printAll lines) (printAll lines) :=
  Twins.forM _ _ lines fun line _ => twins_print line

theorem twins_printError (line line' : String) :
    Twins (Session.Beside aside d₀ d₀') Eq (printError line) (printError line') :=
  fun _ _ h => .ok _ _ _ _ rfl ⟨h.host, h.output, h.logs, h.logs'⟩

theorem twins_log (n n' : Note) : Twins (Session.Beside aside d₀ d₀') Eq (log n) (log n') :=
  fun s s' h => .ok _ _ _ _ rfl (h.logged s s' [n] [n'])

theorem run_perform (a : Act α) (s : Session) :
    (perform a).run s = ((a.run { s.host with journal := [] }).1,
      (a.run { s.host with journal := [] }).2.journal.foldl (·.log programName ·)
        { s with host := { (a.run { s.host with journal := [] }).2 with journal := [] } }) := by
  have hlogs : ∀ (ns : List Note) (s : Session),
      (ns.forM log).run s = (.ok (), ns.foldl (·.log programName ·) s) := by
    intro ns
    induction ns with
    | nil => exact fun _ => rfl
    | cons n ns ih =>
      intro s
      change (log n >>= fun _ => ns.forM log).run s = _
      rw [run_bind]
      exact ih _
  unfold perform
  rw [run_bind, run_get]
  simp only
  generalize a.run { s.host with journal := [] } = o
  obtain ⟨r, h⟩ := o
  simp only
  rw [run_bind]
  change (h.journal.forM log >>= _).run { s with host := { h with journal := [] } } = _
  rw [run_bind, hlogs]
  cases r <;> rfl

/-- Of an operation nothing is heard but what it does to the machine. -/
theorem perform_unheard (a : Act α) (s : Session) (r : Except Fault α) (k : Host)
    (hrun : a.run { s.host with journal := [] } = (r, k)) (hlogs : s.logs.Confined aside k.disk) :
    ∃ t, (perform a).run s = (r, t) ∧
      Session.Unheard aside k.disk { s with host := { k with journal := [] } } t := by
  have hquiet : Session.Unheard aside k.disk { s with host := { k with journal := [] } }
      { s with host := { k with journal := [] } } := .refl _ (.refl _)
  rw [run_perform, hrun]
  exact ⟨_, rfl, hquiet.foldl_log _ _ hlogs k.journal⟩

/-- An operation that comes to the same on both machines does so in both sessions. -/
theorem perform_alike (V : α → β → Prop) (a : Act α) (b : Act β) (s s' : Session)
    (h : Session.Beside aside d₀ d₀' s s')
    (hrun : Alike (Host.Beside aside d₀ d₀') V (a.run { s.host with journal := [] })
      (b.run { s'.host with journal := [] })) :
    Alike (Session.Beside aside d₀ d₀') V ((perform a).run s) ((perform b).run s') := by
  rw [run_perform, run_perform]
  have hafter := hrun.state
  have hbeside : Session.Beside aside d₀ d₀'
      { s with host := { (a.run { s.host with journal := [] }).2 with journal := [] } }
      { s' with host := { (b.run { s'.host with journal := [] }).2 with journal := [] } } :=
    ⟨hafter.journal _ _ _ _ _ _, h.output, h.logs, h.logs'⟩
  have hlogged := hbeside.logged _ _ (a.run { s.host with journal := [] }).2.journal
    (b.run { s'.host with journal := [] }).2.journal
  generalize a.run { s.host with journal := [] } = o at hrun hlogged ⊢
  generalize b.run { s'.host with journal := [] } = o' at hrun hlogged ⊢
  cases hrun with
  | ok v w k k' hV _ => exact .ok v w _ _ hV hlogged
  | error e k k' _ => exact .error e _ _ hlogged

theorem twins_perform (V : α → β → Prop) (a : Act α) (b : Act β)
    (hrun : Twins (Host.Beside aside d₀ d₀') V a b) :
    Twins (Session.Beside aside d₀ d₀') V (perform a) (perform b) :=
  fun s s' h => perform_alike V a b s s' h
    (hrun _ _ (h.host.journal _ _ _ _ _ _))

end Talk

namespace LogSettings

/-- A log file that is asked for is a file, and it is kept aside. -/
def KeptAside (aside : Place → Prop) (d : Disk) (c : LogSettings) : Prop :=
  c.file.isGiven = true → ∃ path, c.file = .str path ∧
    (d.absolute path).toList.contains '\x00' = false ∧
    ∀ p ∈ LogFile.pathsOf (d.absolute path) c.backups, d.Confined aside p

variable {aside : Place → Prop} {d₀ : Disk}

/-- Sinks were gathered, and nothing came of it that is not aside. -/
structure Apart (aside : Place → Prop) (d₀ : Disk) (s : Session)
    (o : Except Fault (List LogSink) × Session) : Prop where
  unheard : Session.Unheard aside d₀ s o.2
  sinks : ∀ sinks, o.1 = .ok sinks → ∀ sink ∈ sinks, sink.target.Confined aside d₀

section
variable (c : LogSettings) (level : Nat) (s : Session) (hlater : Disk.Later aside d₀ s.host.disk)
include hlater

theorem fileSink_apart (layout : LogLayout) (path : String)
    (hpaths : ∀ p ∈ LogFile.pathsOf (d₀.absolute path) c.backups, d₀.Confined aside p) :
    Apart aside d₀ s ((c.fileSink level layout path).run s) := by
  have hopened : Disk.ChangedAside aside d₀ s.host.disk
      ((LogFile.openAt path).run s.host.disk).2 :=
    LogFile.preserves_openAt path (hpaths _ (List.mem_cons_self ..)) s.host.disk ⟨.refl _, hlater⟩
  unfold fileSink
  rw [run_bind, run_get]
  cases hopen : (LogFile.openAt path).run s.host.disk with
  | mk r d =>
    rw [hopen] at hopened
    have hunheard : Session.Unheard aside d₀ s { s with host := { s.host with disk := d } } :=
      ⟨rfl, rfl, hopened, rfl, rfl, rfl, rfl⟩
    simp only [hopen]
    cases r with
    | ok target =>
      refine ⟨hunheard, fun sinks hsinks => ?_⟩
      obtain ⟨htarget, hnamed⟩ := LogFile.openAt_ok _ _ _ _ hopen
      have habsolute : target = d₀.absolute path := by
        rw [htarget, Disk.absolute, Disk.absolute, hlater.workdir]
      cases hsinks
      rw [List.forall_mem_singleton]
      rw [habsolute] at hnamed ⊢
      exact ⟨hnamed, hpaths⟩
    | error e =>
      have hnone : ∀ o : Except Fault (List LogSink) × Session, o.1 = .ok [] →
          o.2 = { s with
            host := { s.host with disk := d }
            errors := s.errors ++ s!"WARNING: Cannot open log file '{path}': {e.message}" ++ "\n" } →
          Apart aside d₀ s o := by
        rintro ⟨r, t⟩ rfl rfl
        refine ⟨hunheard.shown _ _ _ _, fun sinks hsinks => ?_⟩
        cases hsinks
        rintro sink ⟨⟩
      cases e with
      | nullByte => exact ⟨hunheard, by rintro sinks ⟨⟩⟩
      | device => exact hnone _ rfl rfl
      | refused r p t => exact hnone _ rfl rfl

variable (hkept : c.KeptAside aside d₀)
include hkept

theorem withFile_apart (layout : LogLayout) (shown : List LogSink)
    (hshown : ∀ sink ∈ shown, sink.target = .console) :
    Apart aside d₀ s ((c.withFile level layout shown).run s) := by
  have hconsole : ∀ sink ∈ shown, sink.target.Confined aside d₀ := by
    intro sink hsink
    rw [hshown sink hsink]
    trivial
  unfold withFile
  split
  · refine ⟨.refl s hlater, fun sinks hsinks => ?_⟩
    cases hsinks
    exact hconsole
  next hgiven =>
  obtain ⟨path, hpath, -, hpaths⟩ := hkept (by simpa using hgiven)
  have hfile := c.fileSink_apart level s hlater layout path hpaths
  simp only [hpath]
  rw [run_bind]
  generalize (c.fileSink level layout path).run s = o at hfile
  obtain ⟨r, t⟩ := o
  cases r with
  | error e => exact ⟨hfile.unheard, by rintro sinks ⟨⟩⟩
  | ok opened =>
    refine ⟨hfile.unheard, fun sinks hsinks => ?_⟩
    cases hsinks
    exact List.forall_mem_append.mpr ⟨hconsole, hfile.sinks opened rfl⟩

theorem sinks_apart : Apart aside d₀ s ((c.sinks level).run s) := by
  have hfailed : ∀ e, Apart aside d₀ s (.error e, s) := fun e =>
    ⟨.refl s hlater, by rintro sinks ⟨⟩⟩
  unfold sinks
  rw [run_bind, run_layout]
  cases LogLayout.ofText? c.consoleLine "" with
  | none => exact hfailed _
  | some consoleLayout =>
    simp only [Option.elim]
    rw [run_bind, run_layout]
    cases LogLayout.ofText? c.fileLine c.moment with
    | none => exact hfailed _
    | some fileLayout =>
      apply c.withFile_apart level s hlater hkept
      split
      · exact List.forall_mem_singleton.mpr rfl
      · rintro sink ⟨⟩

end

end LogSettings

namespace Talk

variable {aside : Place → Prop} {d₀ : Disk}

/-- Configuring logs that are kept aside succeeds, and nothing but the logs comes of it. -/
theorem configureLogs_aside (c : LogSettings) (s : Session)
    (hlater : Disk.Later aside d₀ s.host.disk) (hkept : c.KeptAside aside d₀)
    (hconsole : (LogLayout.ofText? c.consoleLine "").isSome = true)
    (hfile : (LogLayout.ofText? c.fileLine c.moment).isSome = true) :
    ∃ t, (configureLogs c true).run s = (.ok (), t) ∧ t.logs.Confined aside d₀ ∧
      Session.Unheard aside d₀ { s with logs := t.logs } t := by
  have habsolute : ∀ path, s.host.disk.absolute path = d₀.absolute path := fun path => by
    rw [Disk.absolute, Disk.absolute, hlater.workdir]
  have hproper : c.Proper s.host.disk := by
    refine ⟨hconsole, hfile, fun hgiven => ?_⟩
    obtain ⟨path, hpath, hnull, -⟩ := hkept hgiven
    exact ⟨path, hpath, (congrArg (·.toList.contains '\x00') (habsolute path)).trans hnull⟩
  have happart := c.sinks_apart (Logs.levelOfName c.level)
    { s with logs := s.logs.restart (Logs.levelOfName c.level) } hlater hkept
  obtain ⟨sinks, hsinks⟩ := (gathered c s).returns hproper
  have hforced : s.logs.keeps true = false := by simp [Logs.keeps]
  rw [run_configureLogs, hforced, if_neg Bool.false_ne_true]
  change LogSettings.Apart aside d₀ _ (gather c s) at happart
  generalize gather c s = o at happart hsinks
  obtain ⟨r, t⟩ := o
  cases hsinks
  refine ⟨_, rfl, ?_, ?_⟩
  · have hlogs : t.logs = s.logs.restart (Logs.levelOfName c.level) := happart.unheard.logs
    rw [hlogs]
    unfold Logs.attach
    split
    · rintro sink ⟨⟩
    · exact happart.sinks sinks rfl
  · have h := happart.unheard
    exact ⟨h.output, rfl, h.disk, h.vars, h.homes, h.web, h.requests⟩

/-- A log file that is asked for and is no text is a fault. -/
theorem configureLogs_notText (c : LogSettings) (s : Session)
    (hconsole : (LogLayout.ofText? c.consoleLine "").isSome = true)
    (hfile : (LogLayout.ofText? c.fileLine c.moment).isSome = true)
    (hgiven : c.file.isGiven = true) (htext : ∀ path, c.file ≠ .str path) :
    (configureLogs c true).run s = (.error (.notAPath c.file.kind),
      { s with logs := s.logs.restart (Logs.levelOfName c.level) }) := by
  obtain ⟨consoleLayout, hconsole⟩ := Option.isSome_iff_exists.mp hconsole
  obtain ⟨fileLayout, hfile⟩ := Option.isSome_iff_exists.mp hfile
  have hgather : gather c s = (.error (.notAPath c.file.kind),
      { s with logs := s.logs.restart (Logs.levelOfName c.level) }) := by
    rw [gather, LogSettings.sinks, run_bind, LogSettings.run_layout, hconsole]
    simp only [Option.elim]
    rw [run_bind, LogSettings.run_layout, hfile]
    simp only [Option.elim, hgiven, Bool.not_true, Bool.false_eq_true, if_false]
    rfl
  have hforced : s.logs.keeps true = false := by simp [Logs.keeps]
  rw [run_configureLogs, hforced, if_neg Bool.false_ne_true, hgather]

end Talk

end DocNavigation
