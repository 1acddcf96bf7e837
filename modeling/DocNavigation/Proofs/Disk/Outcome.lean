import DocNavigation.Proofs.Disk.Again
import DocNavigation.Proofs.Disk.Course
import DocNavigation.Proofs.Disk.Replace

/-!
What replacing a file comes to, on any disk. Once the folders above it are made, either one file is
put at a place, or the disk is as it was before; which of the two, a few looks at the disk tell. So it
does all of its work or none: whatever fails, what was on the disk is there still, and at most some
folders on the way to the file are new.
-/

namespace DocNavigation.Disk

/-- Once folders are made, their path leads to a folder. -/
theorem makeFolders_found (d d' : Disk) (path : String)
    (h : (makeFolders path).run d = (.ok (), d')) :
    path.toList.contains '\x00' = false ∧ ∃ x, d'.find true path = .ok (.entry x .folder) := by
  obtain ⟨d₁, -, hlast⟩ | ⟨e, he, -⟩ := run_makeFoldersBelow path.length path d d' _ h
  case inr => cases he
  obtain ⟨hnull, ⟨p, hp, rfl⟩ | ⟨x, hx, rfl⟩⟩ := makeLast_found d₁ d' path hlast
  case inr => exact ⟨hnull, x, hx⟩
  obtain ⟨hpass, hfree⟩ := find_vacant d₁ false path p hp
  have hne := hpass.ne_nil
  have hhere : (d₁.put p .folder).at? p = some .folder := by
    rw [at?_put d₁ p p _ hne, if_pos rfl]
  have hcarried := find_carried d₁ _ (put_keeps d₁ p .folder hne hfree) false path _ hp
  have hfound : (d₁.put p .folder).find false path = .ok (.entry p .folder) := by
    rw [hcarried (by simp [hhere]), landing, hhere]
  exact ⟨hnull, p, find_end _ path _ (by simp) hfound⟩

/-- The place that a move to a path fills. -/
def goal (d : Disk) (path target : String) : Except DiskError Place :=
  let refused := fun r => Except.error (DiskError.refused r path (some target))
  if (namesIn target).all (· = ".") then refused .busy
  else match d.resolve false target with
    | .error (.refused r _ _) => refused r
    | .error e => .error e
    | .ok (.entry _ .folder) => refused .isAFolder
    | .ok (.entry p _) | .ok (.vacant p) => .ok p

theorem run_moveFile (d : Disk) (source : Place) (path target : String) (e : DiskEntry)
    (he : d.at? source = some e) : (moveFile source path target).run d =
      if d.failing.contains .move then (.error .device, d)
      else match d.goal path target with
        | .ok q => (.ok (), (d.erase source).put q e)
        | .error e => (.error e, d) := by
  rw [moveFile, Effect.run_bind, run_attempt]
  by_cases hfails : d.failing.contains .move = true
  · rw [if_pos hfails, if_pos hfails]
  rw [if_neg hfails, if_neg hfails]
  simp only
  rw [run_apply, goal]
  simp only [he]
  by_cases hbusy : (namesIn target).all (· = ".") = true
  · simp only [hbusy, if_true]
  simp only [hbusy]
  cases d.resolve false target with
  | error e => cases e <;> rfl
  | ok f => rcases f with ⟨q, _ | _ | _⟩ | q <;> rfl

/-- The place and the content of a file that is filled and moved to a path. -/
def filling (d : Disk) (temporary target text encoding : String) :
    Except Fault (Place × ByteArray) :=
  match encoded text encoding with
  | .error e => .error e
  | .ok bytes =>
    if d.failing.contains .write then .error (.disk .device)
    else if d.failing.contains .move then .error (.disk .device)
    else match d.goal temporary target with
      | .ok q => .ok (q, bytes)
      | .error e => .error (.disk e)

/-- The outcome of a replacement in a folder that is there. -/
def placing (d : Disk) (target text encoding : String) : Except Fault (Place × ByteArray) :=
  let above := Path.folder target
  if maxPathLength < (Path.join above sampleTemporary).utf8ByteSize then
    .error (.disk (.refused .nameTooLong (Path.join above usualTemporary) none))
  else if d.failing.contains .create then .error (.disk .device)
  else d.filling (Path.join above usualTemporary) target text encoding

/-- What is left of a replacement when the folders above the file are made. -/
def placeFile (target text encoding : String) : Act String := do
  let above := Path.folder target
  let p ← Act.change (makeTemporary above)
  try fill p (Path.join above usualTemporary) target text encoding
  catch e =>
    Act.change (removeFile p)
    throw e
  return target

theorem replaceFile_eq (path text encoding : String) : replaceFile path text encoding = (do
    let d ← Act.disk
    let target := d.absolute path
    Act.change (makeFolders (Path.folder target))
    placeFile target text encoding) := rfl

theorem free_entries (d : Disk) (p : Place) (hfree : d.at? p = none) :
    d.entries.filter (·.1 ≠ p) = d.entries := by
  rw [List.filter_eq_self]
  intro e he
  apply decide_eq_true
  rintro rfl
  unfold at? at hfree
  split at hfree
  · cases hfree
  · have hnone := List.find?_eq_none.mp (Option.map_eq_none_iff.mp hfree) e he
    simp at hnone

theorem erase_put (d : Disk) (p : Place) (e : DiskEntry) (hfree : d.at? p = none) :
    (d.put p e).erase p = d := by
  rw [put, erase]
  simp only [List.filter_cons, ne_eq, not_true_eq_false, decide_false, Bool.false_eq_true, if_false,
    List.filter_filter, Bool.and_self]
  rw [free_entries d p hfree]

section
variable (d : Disk) (target : String) (names : List String) (hplain : Path.Plain target names)
  (x : Place) (hx : d.find true (Path.folder target) = .ok (.entry x .folder))
include hplain hx

/-- A file in a free place makes no difference to where a path in a folder leads. -/
theorem goal_put (p : Place) (bytes : ByteArray) (hne : p ≠ []) (hfree : d.at? p = none)
    (path : String) : (d.put p (.file bytes)).goal path target = d.goal path target := by
  by_cases hbusy : (namesIn target).all (· = ".") = true
  · simp only [goal, hbusy, if_true]
  obtain ⟨names, s, rfl⟩ := (List.eq_nil_or_concat' names).resolve_left (by
    rintro rfl
    rw [Path.namesIn_plain target [] hplain] at hbusy
    exact hbusy (by decide))
  have habove : Path.Plain (Path.folder target) names := (Path.split_plain target names s hplain).1
  have hx' := find_carried d _ (put_keeps d p (.file bytes) hne hfree) true _ _ hx
  have hfound := find_named d _ target names s habove hplain x hx
  have hfound' := find_named _ _ target names s habove hplain x hx'
  simp only [goal, hbusy, resolve, hfound, hfound', Bool.false_eq_true, if_false]
  by_cases hnull : target.toList.contains '\x00' = true
  · simp only [hnull, if_true]
  by_cases hpath : maxPathLength < target.utf8ByteSize
  · simp only [hpath, if_true]
  by_cases hname : maxNameLength < s.utf8ByteSize
  · simp only [hpath, if_false, nameAt, hname, if_true]
  simp only [hnull, hpath, nameAt, hname, landing, at?_put d p _ _ hne, Bool.false_eq_true, if_false]
  by_cases hp : x ++ [s] = p
  · simp only [hp, if_true, hfree, Except.mapError]
  · rw [if_neg hp]

theorem run_makeTemporary_in (hnull : (Path.folder target).toList.contains '\x00' = false) :
    (makeTemporary (Path.folder target)).run d =
      if maxPathLength < (Path.join (Path.folder target) sampleTemporary).utf8ByteSize then
        (.error (.refused .nameTooLong (Path.join (Path.folder target) usualTemporary) none), d)
      else if d.failing.contains .create then (.error .device, d)
      else
        let p := x ++ [temporaryName ((d.children x).map (·.1))]
        (.ok p, d.put p (.file .empty)) := by
  have habove := Path.folder_plain target names hplain
  have hjoin := Path.join_plain _ _ sampleTemporary habove isName_sampleTemporary
  have hfound := find_named d _ _ _ sampleTemporary habove hjoin x hx
  have hjoined := Path.join_noNull _ sampleTemporary hnull (by decide)
  have hshort : ¬ maxNameLength < sampleTemporary.utf8ByteSize := by decide
  by_cases hlong : maxPathLength <
      (Path.join (Path.folder target) sampleTemporary).utf8ByteSize
  · have hresolve : d.resolve false (Path.join (Path.folder target) sampleTemporary) =
        .error (.refused .nameTooLong (Path.join (Path.folder target) sampleTemporary) none) := by
      rw [resolve, hjoined, hfound, if_pos hlong]
      rfl
    rw [if_pos hlong, makeTemporary, Effect.run_bind, Effect.run_get]
    simp only [hresolve]
    rfl
  · rw [if_neg hlong, nameAt, if_neg hshort] at hfound
    have hresolve := (resolve_eq_ok_iff d false _ _).mpr ⟨hjoined, hfound⟩
    rw [if_neg hlong, run_makeTemporary d _ _ hresolve]
    simp only [landing_place, List.dropLast_concat]

theorem run_fill_free (p : Place) (hne : p ≠ []) (hfree : d.at? p = none)
    (temporary text encoding : String) (h : Host) (hd : h.disk = d.put p (.file .empty)) :
    match d.filling temporary target text encoding with
    | .ok (q, bytes) => (fill p temporary target text encoding).run h =
        (.ok (), { h with disk := d.put q (.file bytes) })
    | .error e => ∃ bytes, (fill p temporary target text encoding).run h =
        (.error e, { h with disk := d.put p (.file bytes) }) := by
  have hh : h = { h with disk := d.put p (.file .empty) } := by rw [← hd]
  rw [fill, Effect.run_bind, Act.run_lift, filling]
  cases encoded text encoding with
  | error e => exact ⟨.empty, Prod.ext rfl hh⟩
  | ok bytes =>
    have hfailing : h.disk.failing = d.failing := by rw [hd, put]
    have hput : (putFile p bytes).run h.disk = if d.failing.contains .write
        then (.error .device, h.disk) else (.ok (), d.put p (.file bytes)) := by
      rw [putFile, Effect.run_bind, run_attempt, hfailing]
      by_cases hwrite : d.failing.contains .write = true
      · rw [if_pos hwrite, if_pos hwrite]
      · rw [if_neg hwrite, if_neg hwrite, ← put_put d p (.file .empty), ← hd]
        rfl
    have hfile : (d.put p (.file bytes)).at? p = some (.file bytes) := by
      rw [at?_put d p p _ hne, if_pos rfl]
    have hmove := run_moveFile (d.put p (.file bytes)) p temporary target _ hfile
    have hdevice : (d.put p (.file bytes)).failing = d.failing := rfl
    rw [goal_put d target names hplain x hx p bytes hne hfree temporary, erase_put d p _ hfree,
      hdevice] at hmove
    simp only
    rw [Effect.run_bind, Act.run_change, hput]
    by_cases hwrite : d.failing.contains .write = true
    · simp only [hwrite, if_true]
      refine ⟨.empty, ?_⟩
      rw [← hd]
      rfl
    simp only [hwrite, if_false, Bool.false_eq_true, Except.mapError]
    rw [Act.run_change]
    simp only
    rw [hmove]
    by_cases hstuck : d.failing.contains .move = true
    · simp only [hstuck, if_true]
      exact ⟨bytes, rfl⟩
    simp only [hstuck, if_false, Bool.false_eq_true]
    cases d.goal temporary target with
    | ok q => rfl
    | error e => exact ⟨bytes, rfl⟩

/-- In a folder that is there a file is replaced, or everything is as it was. -/
theorem run_placeFile (text encoding : String)
    (hnull : (Path.folder target).toList.contains '\x00' = false) (h : Host) (hd : h.disk = d) :
    (placeFile target text encoding).run h = match d.placing target text encoding with
      | .ok (q, bytes) => (.ok target, { h with disk := d.put q (.file bytes) })
      | .error e => (.error e, h) := by
  subst hd
  have hmade := run_makeTemporary_in h.disk target names hplain x hx hnull
  rw [placeFile, Effect.run_bind, Act.run_change, hmade, placing]
  by_cases hlong : maxPathLength <
      (Path.join (Path.folder target) sampleTemporary).utf8ByteSize
  · simp only [hlong, if_true]
    rfl
  by_cases hcreate : h.disk.failing.contains .create = true
  · simp only [hlong, hcreate, if_true, if_false]
    rfl
  simp only [hlong, hcreate, if_false, Bool.false_eq_true]
  generalize hp : x ++ [temporaryName ((h.disk.children x).map (·.1))] = p
  have hfree : h.disk.at? p = none := hp ▸ free_temporary h.disk x
  have hne : p ≠ [] := by
    rw [← hp]
    simp
  have hfill := run_fill_free h.disk target names hplain x hx p hne hfree
    (Path.join (Path.folder target) usualTemporary) text encoding
    { h with disk := h.disk.put p (.file .empty) } rfl
  change (do
    try fill p (Path.join (Path.folder target) usualTemporary) target text encoding
    catch e =>
      Act.change (removeFile p)
      throw e
    return target : Act String).run { h with disk := h.disk.put p (.file .empty) } = _
  rw [Effect.run_bind, Effect.run_tryCatch]
  cases hfilling : h.disk.filling (Path.join (Path.folder target) usualTemporary) target text
      encoding with
  | ok r =>
    rw [hfilling] at hfill
    simp only at hfill
    rw [hfill]
    rfl
  | error e =>
    rw [hfilling] at hfill
    obtain ⟨bytes, hfill⟩ := hfill
    rw [hfill]
    simp only
    rw [Effect.run_bind, Act.run_change]
    change (Except.error e, { h with disk := (h.disk.put p (.file bytes)).erase p }) = _
    rw [erase_put h.disk p _ hfree]

end

/-- The folders are made, and then the file is placed or nothing else is changed. -/
theorem run_replaceFile (path text encoding : String) (h : Host) :
    (replaceFile path text encoding).run h =
      let target := h.disk.absolute path
      match (makeFolders (Path.folder target)).run h.disk with
      | (.error e, d) => (.error (.disk e), { h with disk := d })
      | (.ok _, d) =>
        match d.placing target text encoding with
        | .error e => (.error e, { h with disk := d })
        | .ok (q, bytes) => (.ok target, { h with disk := d.put q (.file bytes) }) := by
  obtain ⟨names, hplain⟩ := absolute_plain h.disk path
  rw [replaceFile_eq, Effect.run_bind, Act.run_disk]
  simp only
  rw [Effect.run_bind, Act.run_change]
  cases hmade : (makeFolders (Path.folder (h.disk.absolute path))).run h.disk with
  | mk r d =>
    cases r with
    | error e => rfl
    | ok _ =>
      obtain ⟨hnull, x, hx⟩ := makeFolders_found _ _ _ hmade
      have hplaced := run_placeFile d _ names hplain x hx text encoding hnull { h with disk := d } rfl
      simp only [Except.mapError]
      rw [hplaced]
      cases d.placing (h.disk.absolute path) text encoding <;> rfl

/-- A file that was written can be read if its folder can still be reached. -/
theorem Renewed.readFile (d d' d₁ : Disk) (target : String) (bytes : ByteArray) (x : Place)
    (s : String) (h : Renewed d d' target bytes d₁ x s)
    (hfolder : d'.isFolder (Path.folder target) = true) : d'.readFile target = .ok bytes := by
  have hsettled := h.settled d d' d' d₁ target bytes x s (Overwrites.refl d') hfolder
  refine hsettled.readFile d' target _ bytes ?_
  rw [h.placing.entries, if_pos rfl]

/-- A replacement that fails leaves at most folders behind, all of them above the file. -/
theorem replaceFile_left (h h' : Host) (hd : h.disk.WellFormed) (path text encoding : String)
    (e : Fault) (hrun : (replaceFile path text encoding).run h = (.error e, h')) :
    h'.disk = h.disk ∨
      ∃ up x, MadeUpTo h.disk h'.disk (Path.folder^[up + 1] (h.disk.absolute path)) x := by
  obtain ⟨names, hplain⟩ := absolute_plain h.disk path
  have habove := Path.folder_plain _ names hplain
  rw [run_replaceFile] at hrun
  simp only at hrun
  split at hrun
  case h_1 e' d hmade =>
    cases hrun
    exact (makeFolders_failed _ _ h.disk d e' hd habove hmade).imp_right
      fun ⟨up, x, hmade⟩ => ⟨up + 1, x, hmade⟩
  case h_2 d hmade =>
    split at hrun
    case h_1 =>
      cases hrun
      obtain ⟨x, hx⟩ := makeFolders_ok _ _ h.disk d hd habove hmade
      exact .inr ⟨0, x, hx⟩
    case h_2 => cases hrun

theorem exists_run_replaceFile (path text encoding : String) (h : Host) :
    ∃ r d', (replaceFile path text encoding).run h = (r, { h with disk := d' }) := by
  rw [run_replaceFile]
  simp only
  split
  case h_1 => exact ⟨_, _, rfl⟩
  case h_2 => split <;> exact ⟨_, _, rfl⟩

/-- A replacement goes well just in case each of its steps does. -/
theorem replaceFile_returns_iff (path text encoding : String) (h : Host) :
    (∃ written, ((replaceFile path text encoding).run h).1 = .ok written) ↔ ∃ d place,
      (makeFolders (Path.folder (h.disk.absolute path))).run h.disk = (.ok (), d) ∧
        d.placing (h.disk.absolute path) text encoding = .ok place := by
  rw [run_replaceFile]
  simp only
  generalize h.disk.absolute path = target
  constructor
  · rintro ⟨written, hok⟩
    cases hmade : (makeFolders (Path.folder target)).run h.disk with
    | mk r d =>
      rw [hmade] at hok
      cases r with
      | error e => cases hok
      | ok _ =>
        simp only at hok
        cases hplaced : d.placing target text encoding with
        | error e =>
          rw [hplaced] at hok
          cases hok
        | ok place => exact ⟨d, place, rfl, hplaced⟩
  · rintro ⟨d, place, hmade, hplaced⟩
    rw [hmade]
    simp only [hplaced]
    exact ⟨target, rfl⟩

/-- A file in a folder and a link to it. -/
def desk : Host :=
  { disk :=
      { workdir := []
        entries := [(["a"], .folder), (["a", "old"], .file "old".toUTF8), (["b"], .link "a/old")] } }

end DocNavigation.Disk
