import DocNavigation.Proofs.Disk.Temporary

/-!
Replacing a file as a whole: when it can be done, the file that is read back, and what else is on the
disk. A path is ready if its folder is there, its names are short enough and the device does its
part; the file is then where the path says, and the rest of the disk is as it was.
-/

namespace DocNavigation.Disk

/-- What a path needs for its file to be replaced: the place of its folder and its last name. -/
structure Ready (d : Disk) (target : String) (x : Place) (s : String) : Prop where
  plain : ∃ names, Path.Plain target (names ++ [s])
  noNull : target.toList.contains '\x00' = false
  short : target.utf8ByteSize ≤ maxPathLength
  roomy : (Path.join (Path.folder target) sampleTemporary).utf8ByteSize ≤ maxPathLength
  name : s.utf8ByteSize ≤ maxNameLength
  device : ∀ step, step ≠ .makeFolder → d.failing.contains step = false
  above : d.find true (Path.folder target) = .ok (.entry x .folder)
  noFolder : d.at? (x ++ [s]) ≠ some .folder

/-- The second disk differs from the first in one file. -/
structure Placing (d d' : Disk) (p : Place) (bytes : ByteArray) : Prop where
  wellFormed : d'.WellFormed
  workdir : d'.workdir = d.workdir
  failing : d'.failing = d.failing
  entries : ∀ r, d'.at? r = if r = p then some (.file bytes) else d.at? r

theorem run_change_of {α : Type} (a : DiskAct α) (r : α) (d' : Disk) (h : Host)
    (hrun : a.run h.disk = (.ok r, d')) :
    (Act.change a).run h = (.ok r, { h with disk := d' }) := by
  rw [Act.run_change, hrun]
  rfl

section
variable (d : Disk) (target : String) (x : Place) (s : String) (h : Ready d target x s)
include h

theorem Ready.isFolder : d.isFolder (Path.folder target) = true := by
  apply (isFolder_iff d _).mpr
  exact ⟨x, (resolve_eq_ok_iff d true _ _).mpr ⟨Path.folder_noNull target h.noNull, h.above⟩⟩

theorem Ready.makeFolders : (makeFolders (Path.folder target)).run d = (.ok (), d) := by
  obtain ⟨names, hplain⟩ := h.plain
  exact makeFolders_there d _ names (Path.split_plain target names s hplain).1 h.isFolder

/-- Where the path leads on any disk that has its folder. -/
theorem Ready.find (d₂ : Disk) (hx : d₂.find true (Path.folder target) = .ok (.entry x .folder)) :
    d₂.find false target = .ok (d₂.landing (x ++ [s])) := by
  obtain ⟨names, hplain⟩ := h.plain
  exact find_into d₂ (Path.folder target) target names s (Path.split_plain target names s hplain).1
    hplain h.short h.name x hx

/-- A path stays ready while its folder can be reached and the device does its part. -/
theorem Ready.carried (d₂ : Disk) (hfailing : d₂.failing = d.failing)
    (habove : d₂.find true (Path.folder target) = .ok (.entry x .folder))
    (hfolder : d₂.at? (x ++ [s]) ≠ some .folder) : Ready d₂ target x s :=
  { h with
    device := fun step hstep => hfailing ▸ h.device step hstep
    above := habove
    noFolder := hfolder }

theorem Ready.makeTemporary (hd : d.WellFormed) : ∃ p, FreeIn d x p ∧
    (makeTemporary (Path.folder target)).run d = (.ok p, d.put p (.file .empty)) := by
  obtain ⟨names, hplain⟩ := h.plain
  have habove : Path.Plain (Path.folder target) names := (Path.split_plain target names s hplain).1
  have hjoin := Path.join_plain _ names sampleTemporary habove isName_sampleTemporary
  have hfound := find_into d _ _ names sampleTemporary habove hjoin h.roomy (by decide) x h.above
  have hnull := Path.join_noNull _ sampleTemporary (Path.folder_noNull target h.noNull) (by decide)
  have hx : d.at? x = some .folder := find_located d hd true _ _ h.above
  have hrun := run_makeTemporary d _ _ ((resolve_eq_ok_iff d false _ _).mpr ⟨hnull, hfound⟩)
  simp only [landing_place, List.dropLast_concat, h.device .create (by decide)] at hrun
  exact ⟨_, freeIn_temporary d x hx, hrun⟩

/-- The file is filled and moved to its place. -/
theorem Ready.moveFile (d₂ : Disk) (p : Place) (bytes : ByteArray) (temporary : String)
    (hadded : Added d d₂ p bytes) (hfailing : d₂.failing = d.failing) :
    (moveFile p temporary target).run d₂ =
      (.ok (), (d₂.erase p).put (x ++ [s]) (.file bytes)) := by
  obtain ⟨names, hplain⟩ := h.plain
  have hs := hplain.names s (by simp)
  have hfile : d₂.at? p = some (.file bytes) := by
    rw [hadded.entries, if_pos rfl]
  have hnames : Disk.namesIn target = names ++ [s] := by
    rw [Path.namesIn_plain target _ hplain, if_neg (by simp)]
  have hbusy : (namesIn target).all (· = ".") = false := by
    rw [hnames, List.all_append]
    simp [hs.dot]
  have hx := find_carried d d₂ (hadded.keeps d d₂ p bytes).1 true _ _ h.above
  have hfound := h.find d target x s d₂ hx
  have hfolder : d₂.at? (x ++ [s]) ≠ some .folder := by
    intro hfolder
    exact h.noFolder ((hadded.keeps d d₂ p bytes).2.folders _ hfolder)
  have hresolve := (resolve_eq_ok_iff d₂ false target _).mpr ⟨h.noNull, hfound⟩
  have hmove : d₂.failing.contains .move = false := hfailing ▸ h.device .move (by decide)
  rw [Disk.moveFile, Effect.run_bind, run_attempt, hmove]
  simp only [Bool.false_eq_true, if_false]
  rw [run_apply]
  simp only [hfile, hbusy, hresolve, Bool.false_eq_true, if_false]
  unfold landing
  cases he : d₂.at? (x ++ [s]) with
  | none => rfl
  | some e =>
    cases e with
    | folder => exact absurd he hfolder
    | file old => rfl
    | link t => rfl

end

theorem run_fill (p : Place) (temporary target text encoding : String) (bytes : ByteArray) (h : Host)
    (d' : Disk) (hbytes : encoded text encoding = .ok bytes)
    (hwrite : h.disk.failing.contains .write = false)
    (hmoved : (moveFile p temporary target).run (h.disk.put p (.file bytes)) = (.ok (), d')) :
    (fill p temporary target text encoding).run h = (.ok (), { h with disk := d' }) := by
  have hput : (putFile p bytes).run h.disk = (.ok (), h.disk.put p (.file bytes)) := by
    rw [putFile, Effect.run_bind, run_attempt, hwrite]
    rfl
  rw [fill, Effect.run_bind, Act.run_lift, hbytes]
  simp only
  rw [Effect.run_bind, run_change_of _ _ _ h hput]
  exact run_change_of _ _ _ { h with disk := h.disk.put p (.file bytes) } hmoved

/-- Once the folders above a ready path are made, its file is replaced and nothing else. -/
theorem replaceFile_made (d d₁ : Disk) (path text encoding : String) (bytes : ByteArray)
    (x : Place) (s : String) (hbytes : encoded text encoding = .ok bytes)
    (hmade : (makeFolders (Path.folder (d.absolute path))).run d = (.ok (), d₁))
    (hd : d₁.WellFormed) (hready : Ready d₁ (d.absolute path) x s) :
    ∃ d', Placing d₁ d' (x ++ [s]) bytes ∧ ∀ h : Host, h.disk = d →
      (replaceFile path text encoding).run h = (.ok (d.absolute path), { h with disk := d' }) := by
  generalize htarget : d.absolute path = target at *
  obtain ⟨p, hfree, htemporary⟩ := hready.makeTemporary d₁ target x s hd
  obtain ⟨hp, hadded⟩ := added_temporary d₁ hd x p bytes hfree
  have hmoved := hready.moveFile d₁ target x s _ p bytes
    (Path.join (Path.folder target) usualTemporary) hadded rfl
  have hwrite : (d₁.put p (.file .empty)).failing.contains .write = false :=
    hready.device .write (by decide)
  obtain ⟨hformed, hentries⟩ := hadded.moved d₁ _ p bytes hp x s
    ((hadded.keeps d₁ _ p bytes).1.folders x (find_located d₁ hd true _ _ hready.above))
    fun hfolder => hready.noFolder ((hadded.keeps d₁ _ p bytes).2.folders _ hfolder)
  refine ⟨_, ⟨hformed, rfl, rfl, hentries⟩, ?_⟩
  intro h hdisk
  subst hdisk
  have hfill := run_fill p _ target text encoding bytes { h with disk := d₁.put p (.file .empty) } _
    hbytes hwrite hmoved
  rw [replaceFile, Effect.run_bind, Act.run_disk]
  simp only [htarget]
  rw [Effect.run_bind, run_change_of _ _ d₁ h hmade]
  simp only
  rw [Effect.run_bind, run_change_of _ _ _ { h with disk := d₁ } htemporary]
  simp only
  rw [Effect.run_bind, Effect.run_tryCatch, hfill]
  rfl

theorem encoded_utf8 (text : String) : encoded text "utf-8" = .ok text.toUTF8 := by
  have hname : Text.Encoding.ofName "utf-8" = .ok (.utf8 false) := by rfl
  rw [encoded, hname]
  rfl

theorem moveFile_ok (d d' : Disk) (source : Place) (path target : String)
    (h : (moveFile source path target).run d = (.ok (), d')) :
    d.failing.contains .move = false ∧ ∃ f e, d.resolve false target = .ok f ∧
      (∀ q, f ≠ .entry q .folder) ∧ d.at? source = some e ∧
      d' = (d.erase source).put f.place e := by
  obtain ⟨hmove, h⟩ := run_attempt_ok .move _ d d' () h
  refine ⟨hmove, ?_⟩
  rw [run_apply] at h
  cases he : d.at? source with
  | none =>
    simp only [he] at h
    cases h
  | some e =>
    simp only [he] at h
    by_cases hbusy : (namesIn target).all (· = ".") = true
    · simp only [hbusy, if_true] at h
      cases h
    simp only [hbusy] at h
    cases hr : d.resolve false target with
    | error e =>
      simp only [hr] at h
      cases e <;> cases h
    | ok f =>
      simp only [hr] at h
      refine ⟨f, e, rfl, ?_, rfl, ?_⟩
      · rintro q rfl
        cases h
      · rcases f with ⟨q, _ | _ | _⟩ | q <;> cases h <;> rfl

theorem moveFile_failed (d d' : Disk) (source : Place) (path target : String) (e : DiskError)
    (h : (moveFile source path target).run d = (.error e, d')) : d' = d := by
  rw [moveFile, Effect.run_bind, run_attempt] at h
  by_cases hfails : d.failing.contains .move = true
  · rw [if_pos hfails] at h
    exact (congrArg Prod.snd h).symm
  · rw [if_neg hfails] at h
    simp only [run_apply] at h
    split at h
    case h_1 => cases h
    case h_2 => exact (congrArg Prod.snd h).symm

/-- A change that went well. -/
theorem change_ok {α : Type} (a : DiskAct α) (r : α) (h h' : Host)
    (hrun : (Act.change a).run h = (.ok r, h')) :
    ∃ d', a.run h.disk = (.ok r, d') ∧ h' = { h with disk := d' } := by
  rw [Act.run_change] at hrun
  cases hd : a.run h.disk with
  | mk result d' =>
    rw [hd] at hrun
    cases result with
    | error e => cases hrun
    | ok b =>
      cases hrun
      exact ⟨d', rfl, rfl⟩

theorem fill_ok (p : Place) (temporary target text encoding : String) (h h' : Host)
    (hrun : (fill p temporary target text encoding).run h = (.ok (), h')) :
    h.disk.failing.contains .write = false ∧ ∃ bytes d', encoded text encoding = .ok bytes ∧
      (moveFile p temporary target).run (h.disk.put p (.file bytes)) = (.ok (), d') ∧
      h' = { h with disk := d' } := by
  rw [fill, Effect.bind_eq_ok_iff] at hrun
  obtain ⟨bytes, h₁, hlift, hrun⟩ := hrun
  rw [Act.run_lift] at hlift
  obtain ⟨hbytes, rfl⟩ := Prod.mk.inj hlift
  rw [Effect.bind_eq_ok_iff] at hrun
  obtain ⟨_, h₂, hput, hmove⟩ := hrun
  obtain ⟨d₂, hd₂, rfl⟩ := change_ok _ _ _ _ hput
  obtain ⟨hwrite, rfl⟩ := putFile_ok _ _ _ _ hd₂
  obtain ⟨d', hd', rfl⟩ := change_ok _ _ _ _ hmove
  exact ⟨hwrite, bytes, d', hbytes, hd', rfl⟩

/-- The steps of a replacement that went well. -/
structure Steps (d : Disk) (target text encoding : String) (d₁ : Disk) (p : Place)
    (bytes : ByteArray) : Prop where
  folders : (makeFolders (Path.folder target)).run d = (.ok (), d₁)
  encoded : encoded text encoding = .ok bytes
  moved : ∃ d₂ d', (makeTemporary (Path.folder target)).run d₁ = (.ok p, d₂) ∧
    d₂.failing.contains .write = false ∧
    (moveFile p (Path.join (Path.folder target) usualTemporary) target).run
      (d₂.put p (.file bytes)) = (.ok (), d')

theorem replaceFile_steps (path text encoding written : String) (h h' : Host)
    (hrun : (replaceFile path text encoding).run h = (.ok written, h')) :
    written = h.disk.absolute path ∧ ∃ d₁ p bytes, Steps h.disk written text encoding d₁ p bytes := by
  rw [replaceFile, Effect.run_bind, Act.run_disk] at hrun
  simp only at hrun
  rw [Effect.bind_eq_ok_iff] at hrun
  obtain ⟨_, h₁, hfolders, hrun⟩ := hrun
  obtain ⟨d₁, hd₁, rfl⟩ := change_ok _ _ _ _ hfolders
  rw [Effect.bind_eq_ok_iff] at hrun
  obtain ⟨p, h₂, hmade, hrun⟩ := hrun
  obtain ⟨d₂, hd₂, rfl⟩ := change_ok _ _ _ _ hmade
  rw [Effect.bind_eq_ok_iff] at hrun
  obtain ⟨_, h₃, hfill, hrun⟩ := hrun
  rw [Effect.run_tryCatch] at hfill
  split at hfill
  case h_2 e h₄ _ =>
    rw [Effect.bind_eq_ok_iff] at hfill
    obtain ⟨_, _, _, hthrow⟩ := hfill
    cases hthrow
  case h_1 _ h₄ hfilled =>
    obtain ⟨-, rfl⟩ := Prod.mk.inj hfill
    obtain ⟨hwrite, bytes, d', hbytes, hmoved, rfl⟩ := fill_ok _ _ _ _ _ _ _ hfilled
    obtain ⟨hwritten, rfl⟩ := Prod.mk.inj hrun
    obtain rfl := Except.ok.inj hwritten
    exact ⟨rfl, d₁, p, bytes, hd₁, hbytes, d₂, d', hd₂, hwrite, hmoved⟩

/-- The path was ready once the folders above it were made. -/
theorem Steps.ready (d : Disk) (target text encoding : String) (d₁ : Disk) (p : Place)
    (bytes : ByteArray) (names : List String) (hd : d.WellFormed) (hplain : Path.Plain target names)
    (h : Steps d target text encoding d₁ p bytes) :
    ∃ x s, MadeUpTo d d₁ (Path.folder target) x ∧ Ready d₁ target x s := by
  obtain ⟨d₂, d', htemporary, hwrite, hmoved⟩ := h.moved
  obtain ⟨hmove, f, -, hf, hnofolder, -⟩ := moveFile_ok _ _ _ _ _ hmoved
  obtain ⟨hnull, hf⟩ := (resolve_eq_ok_iff _ false target _).mp hf
  obtain ⟨names, s, rfl⟩ := (List.eq_nil_or_concat' names).resolve_left (by
    intro hnames
    subst hnames
    exact hnofolder [] (find_root _ false target hplain f hf))
  have habove : Path.Plain (Path.folder target) names := (Path.split_plain target names s hplain).1
  obtain ⟨x, hmade⟩ := makeFolders_ok _ names d d₁ hd habove h.folders
  obtain ⟨hcreate, -, g, hg, -⟩ := makeTemporary_found d₁ d₂ _ p htemporary
  obtain ⟨⟨y, hfree⟩, rfl⟩ := makeTemporary_ok d₁ d₂ hmade.wellFormed _ p htemporary
  obtain ⟨-, hadded⟩ := added_temporary d₁ hmade.wellFormed y p bytes hfree
  have hkeeps := hadded.keeps d₁ _ p bytes
  -- the folder that the file goes to is the one that was just made or found
  obtain ⟨z, hz, hend⟩ := find_snoc _ false target names s hplain f hf
  rw [find_carried d₁ _ hkeeps.1 true _ _ hmade.found] at hz
  cases hz
  refine ⟨x, s, hmade, ⟨names, hplain⟩, hnull, find_short _ false target f hf,
    find_short d₁ false _ g ((resolve_eq_ok_iff d₁ false _ g).mp hg).2, hend.fits, ?_, hmade.found, ?_⟩
  · intro step hstep
    cases step with
    | makeFolder => exact absurd rfl hstep
    | create => exact hcreate
    | write => exact hwrite
    | move => exact hmove
  · intro hfolder
    have hlanding := hend.lands (.inr rfl)
    rw [landing, hkeeps.1.folders _ hfolder] at hlanding
    exact hnofolder _ hlanding

/-- The disk after a file was replaced: the file has its bytes, and besides it only folders on the
way to it can be new. -/
structure Replaced (d d' : Disk) (target : String) (bytes : ByteArray) (q : Place) : Prop where
  wellFormed : d'.WellFormed
  workdir : d'.workdir = d.workdir
  written : d'.at? q = some (.file bytes)
  kept : ∀ p e, p ≠ q → d.at? p = some e → d'.at? p = some e
  new : ∀ p e, p ≠ q → d'.at? p = some e → d.at? p = some e ∨ (e = .folder ∧ p <+: q)
  replaces : ∀ e, d.at? q = some e → d.resolve false target = .ok (.entry q e)
  noFolder : d.at? q ≠ some .folder
  read : (∀ t, d.at? q ≠ some (.link t)) → d'.readFile target = .ok bytes

/-- A file was replaced: the folders above it were made, if they were not there, and then nothing
but the file changed. -/
structure Renewed (d d' : Disk) (target : String) (bytes : ByteArray) (d₁ : Disk) (x : Place)
    (s : String) : Prop where
  folders : MadeUpTo d d₁ (Path.folder target) x
  ready : Ready d₁ target x s
  placing : Placing d₁ d' (x ++ [s]) bytes

theorem isRooted_textOf (p : Place) : Path.isRooted (textOf p) = true := by
  rw [textOf, Path.isRooted_iff]
  exact ⟨_, String.toList_append ..⟩

theorem absolute_plain (d : Disk) (path : String) : ∃ names, Path.Plain (d.absolute path) names :=
  Path.absolute_plain _ path (isRooted_textOf _)

/-- What a replacement that went well did, and does on every machine with this disk. -/
theorem replaceFile_renewed (path text encoding written : String) (h h' : Host)
    (hd : h.disk.WellFormed) (hrun : (replaceFile path text encoding).run h = (.ok written, h')) :
    written = h.disk.absolute path ∧ ∃ bytes d₁ x s, encoded text encoding = .ok bytes ∧
      Renewed h.disk h'.disk written bytes d₁ x s ∧ ∀ k : Host, k.disk = h.disk →
        (replaceFile path text encoding).run k = (.ok written, { k with disk := h'.disk }) := by
  obtain ⟨hwritten, d₁, p, bytes, hsteps⟩ := replaceFile_steps _ _ _ _ _ _ hrun
  rw [hwritten] at hsteps hrun ⊢
  obtain ⟨names, hplain⟩ := absolute_plain h.disk path
  obtain ⟨x, s, hmade, hready⟩ := hsteps.ready _ _ _ _ _ _ _ names hd hplain
  obtain ⟨d', hplacing, hagain⟩ := replaceFile_made h.disk d₁ path text encoding bytes x s
    hsteps.encoded hsteps.folders hmade.wellFormed hready
  have hdisk : h'.disk = d' := by
    have hhere := hagain h rfl
    rw [hrun] at hhere
    exact congrArg Host.disk (congrArg Prod.snd hhere)
  rw [hdisk]
  exact ⟨rfl, bytes, d₁, x, s, hsteps.encoded, ⟨hmade, hready, hplacing⟩, hagain⟩

section
variable (d d' d₁ : Disk) (target : String) (bytes : ByteArray) (x : Place) (s : String)
  (h : Renewed d d' target bytes d₁ x s)
include h

theorem Renewed.read (hlink : ∀ t, d.at? (x ++ [s]) ≠ some (.link t)) :
    d'.readFile target = .ok bytes := by
  have hhere : d'.at? (x ++ [s]) = some (.file bytes) := by
    rw [h.placing.entries, if_pos rfl]
  -- neither a folder nor a link gave way to the file
  have hkeeps : Keeps d₁ d' := by
    refine keeps_of_others d₁ d' (x ++ [s]) h.placing.workdir (fun q hq => ?_) h.ready.noFolder ?_
    · rw [h.placing.entries, if_neg hq]
    · intro t hp
      rcases h.folders.grown.new _ _ hp with hp | ⟨hp, -⟩
      · exact hlink t hp
      · cases hp
  have hfound := h.ready.find d₁ target x s d'
    (find_carried d₁ d' hkeeps true _ _ h.folders.found)
  rw [landing, hhere] at hfound
  have hend := find_end d' target _ (by simp) hfound
  rw [readFile, (resolve_eq_ok_iff d' true target _).mpr ⟨h.ready.noNull, hend⟩]

/-- What was at the place of the file before is what its path led to. -/
theorem Renewed.replaces (hd : d.WellFormed) (e : DiskEntry) (he : d.at? (x ++ [s]) = some e) :
    d.resolve false target = .ok (.entry (x ++ [s]) e) := by
  -- the folder of the file was there before, and so nothing was made on the way to it
  have hback := h.folders.grown.same d d₁ x hd (hd.above x s e he)
  have hfound := h.ready.find d₁ target x s d (find_carried d₁ d hback true _ _ h.folders.found)
  rw [landing, he] at hfound
  exact (resolve_eq_ok_iff d false target _).mpr ⟨h.ready.noNull, hfound⟩

theorem Renewed.replaced (hd : d.WellFormed) : Replaced d d' target bytes (x ++ [s]) where
  wellFormed := h.placing.wellFormed
  workdir := h.placing.workdir.trans h.folders.grown.workdir
  written := by rw [h.placing.entries, if_pos rfl]
  kept p e hp he := by
    rw [h.placing.entries, if_neg hp]
    exact h.folders.grown.kept p e he
  new p e hp he := by
    rw [h.placing.entries, if_neg hp] at he
    rcases h.folders.grown.new p e he with he | ⟨he, hpx⟩
    · exact .inl he
    · exact .inr ⟨he, hpx.trans (List.prefix_append x [s])⟩
  replaces := Renewed.replaces d d' d₁ target bytes x s h hd
  noFolder hfolder := h.ready.noFolder (h.folders.grown.kept _ _ hfolder)
  read := Renewed.read d d' d₁ target bytes x s h

end

/-- What a replacement that went well did to the disk. -/
theorem replaceFile_ok (path text encoding written : String) (h h' : Host) (hd : h.disk.WellFormed)
    (hrun : (replaceFile path text encoding).run h = (.ok written, h')) :
    written = h.disk.absolute path ∧ ∃ d' bytes q, h' = { h with disk := d' } ∧
      encoded text encoding = .ok bytes ∧ Replaced h.disk d' written bytes q := by
  obtain ⟨hwritten, bytes, d₁, x, s, hbytes, hrenewed, hagain⟩ :=
    replaceFile_renewed _ _ _ _ _ _ hd hrun
  have hh' : h' = { h with disk := h'.disk } := by
    have hhere := hagain h rfl
    rw [hrun] at hhere
    exact congrArg Prod.snd hhere
  exact ⟨hwritten, h'.disk, bytes, x ++ [s], hh', hbytes, hrenewed.replaced _ _ _ _ _ _ _ hd⟩

theorem putFile_failed (d d' : Disk) (p : Place) (bytes : ByteArray) (e : DiskError)
    (h : (putFile p bytes).run d = (.error e, d')) : d' = d := by
  rw [putFile, Effect.run_bind, run_attempt] at h
  by_cases hfails : d.failing.contains .write = true
  · rw [if_pos hfails] at h
    exact (congrArg Prod.snd h).symm
  · rw [if_neg hfails] at h
    cases h

theorem change_failed {α : Type} (a : DiskAct α) (e : Fault) (h h' : Host)
    (hrun : (Act.change a).run h = (.error e, h')) :
    ∃ e' d', a.run h.disk = (.error e', d') ∧ h'.disk = d' := by
  rw [Act.run_change] at hrun
  cases hd : a.run h.disk with
  | mk result d' =>
    rw [hd] at hrun
    cases result with
    | ok b => cases hrun
    | error e' => exact ⟨e', d', rfl, (congrArg (fun x => x.2.disk) hrun).symm⟩

/-- What was filled so far is still in its temporary place. -/
theorem fill_failed (p : Place) (temporary target text encoding : String) (e : Fault) (h h' : Host)
    (hrun : (fill p temporary target text encoding).run h = (.error e, h')) :
    h'.disk = h.disk ∨ ∃ bytes, h'.disk = h.disk.put p (.file bytes) := by
  rw [fill, Effect.bind_eq_error_iff] at hrun
  rcases hrun with hlift | ⟨bytes, h₁, hlift, hrun⟩
  · rw [Act.run_lift] at hlift
    exact .inl (congrArg (fun x => x.2.disk) hlift).symm
  rw [Act.run_lift] at hlift
  obtain ⟨-, rfl⟩ := Prod.mk.inj hlift
  rcases (Effect.bind_eq_error_iff _ _ _ _ _).mp hrun with hput | ⟨_, h₂, hput, hmove⟩
  · obtain ⟨e', d', hd', hdisk⟩ := change_failed _ _ _ _ hput
    exact .inl (hdisk.trans (putFile_failed _ _ _ _ _ hd'))
  · obtain ⟨d₂, hd₂, rfl⟩ := change_ok _ _ _ _ hput
    obtain ⟨-, rfl⟩ := putFile_ok _ _ _ _ hd₂
    obtain ⟨e', d', hd', hdisk⟩ := change_failed _ _ _ _ hmove
    exact .inr ⟨bytes, hdisk.trans (moveFile_failed _ _ _ _ _ _ hd')⟩

/-- A temporary file that is removed leaves no trace. -/
theorem gains_erase (d d' : Disk) (hd : d.WellFormed) (y p : Place) (hp : FreeIn d y p)
    (h : d' = d.put p (.file .empty) ∨ ∃ bytes, d' = (d.put p (.file .empty)).put p (.file bytes)) :
    (d'.erase p).WellFormed ∧ Gains d (d'.erase p) := by
  obtain ⟨hy, hfree, s, rfl⟩ := hp
  have hne : y ++ [s] ≠ [] := by simp
  have hentries : ∀ q, (d'.erase (y ++ [s])).at? q = d.at? q := by
    intro q
    rw [at?_erase _ _ _ hne]
    by_cases hq : q = y ++ [s]
    · rw [if_pos hq, hq, hfree]
    · rw [if_neg hq]
      rcases h with rfl | ⟨bytes, rfl⟩
      · rw [at?_put _ _ _ _ hne, if_neg hq]
      · rw [at?_put _ _ _ _ hne, if_neg hq, at?_put _ _ _ _ hne, if_neg hq]
  have hrest : (d'.erase (y ++ [s])).workdir = d.workdir ∧
      (d'.erase (y ++ [s])).failing = d.failing := by
    rcases h with rfl | ⟨bytes, rfl⟩
    · exact ⟨rfl, rfl⟩
    · exact ⟨rfl, rfl⟩
  refine ⟨⟨?_, ?_⟩, hrest.1, hrest.2, ?_, ?_⟩
  · intro q t e hq
    rw [hentries] at hq ⊢
    exact hd.above q t e hq
  · rw [hentries, hrest.1]
    exact hd.workdir
  · intro q e hq
    rwa [hentries]
  · intro q e hq
    rw [hentries] at hq
    exact .inl hq

/-- A replacement that fails changes no entry. All that it can leave behind are folders. -/
theorem replaceFile_failed (path text encoding : String) (e : Fault) (h h' : Host)
    (hd : h.disk.WellFormed) (hrun : (replaceFile path text encoding).run h = (.error e, h')) :
    h'.disk.WellFormed ∧ Gains h.disk h'.disk := by
  have hfolders := gains_makeFolders (Path.folder (h.disk.absolute path)) h.disk hd
  rw [replaceFile, Effect.run_bind, Act.run_disk] at hrun
  simp only at hrun
  rcases (Effect.bind_eq_error_iff _ _ _ _ _).mp hrun with hmade | ⟨_, h₁, hmade, hrun⟩
  · obtain ⟨e', d', hd', hdisk⟩ := change_failed _ _ _ _ hmade
    rw [hd'] at hfolders
    exact hdisk ▸ hfolders
  obtain ⟨d₁, hd₁, rfl⟩ := change_ok _ _ _ _ hmade
  rw [hd₁] at hfolders
  obtain ⟨hformed, hgains⟩ := hfolders
  rcases (Effect.bind_eq_error_iff _ _ _ _ _).mp hrun with htemporary | ⟨p, h₂, htemporary, hrun⟩
  · obtain ⟨e', d', hd', hdisk⟩ := change_failed _ _ _ _ htemporary
    rw [hdisk, makeTemporary_failed _ _ _ _ hd']
    exact ⟨hformed, hgains⟩
  obtain ⟨d₂, hd₂, rfl⟩ := change_ok _ _ _ _ htemporary
  obtain ⟨⟨y, hfree⟩, rfl⟩ := makeTemporary_ok _ _ hformed _ _ hd₂
  rcases (Effect.bind_eq_error_iff _ _ _ _ _).mp hrun with hfill | ⟨_, h₃, -, hpure⟩
  · rw [Effect.run_tryCatch] at hfill
    split at hfill
    · cases hfill
    · next e' h₃ hfilled =>
      -- the temporary file is removed, and nothing else was there that was not there before
      rw [Effect.run_bind, Act.run_change] at hfill
      have hdisk : h'.disk = h₃.disk.erase p := (congrArg (fun x => x.2.disk) hfill).symm
      obtain ⟨hformed', hgains'⟩ :=
        gains_erase d₁ h₃.disk hformed y p hfree (fill_failed _ _ _ _ _ _ _ _ hfilled)
      rw [hdisk]
      exact ⟨hformed', hgains.trans _ _ _ hgains'⟩
  · cases hpure

section
variable {γ : Type} {view : Host → γ} (hview : Act.Sees view)
include hview

theorem only_replaceFile (path text encoding : String) :
    Act.Only view (replaceFile path text encoding) := by
  apply Act.Only.bind _ _ (Act.only_disk hview)
  intro d
  apply Act.Only.bind _ _ (Act.only_change hview _)
  intro _
  apply Act.Only.bind _ _ (Act.only_change hview _)
  intro p
  apply Act.Only.bind _ _ _ fun _ => Act.only_pure _
  apply Act.Only.tryCatch
  · apply Act.Only.bind _ _ (Act.only_lift _)
    intro bytes
    exact Act.Only.bind _ _ (Act.only_change hview _) fun _ => Act.only_change hview _
  · intro e
    exact Act.Only.bind _ _ (Act.only_change hview _) fun _ => Act.only_throw e

end

/-- Nothing is at the end of the path, not even a link that leads nowhere. -/
def IsNew (d : Disk) (path : String) : Prop :=
  ∀ q e, d.resolve false path ≠ .ok (.entry q e)

/-- Where nothing was there, nothing is lost. -/
theorem Replaced.extends (d d' : Disk) (path : String) (bytes : ByteArray) (q : Place)
    (h : Replaced d d' path bytes q) (hnew : d.IsNew path) : Extends d d' := by
  refine ⟨h.workdir, ?_⟩
  intro p e hp
  apply h.kept p e _ hp
  intro hpq
  rw [hpq] at hp
  exact hnew q e (h.replaces e hp)

end DocNavigation.Disk
