import DocNavigation.Proofs.Disk.Lookup
import DocNavigation.Proofs.Effect
import Mathlib.Data.List.Induction
import Mathlib.Logic.Function.Iterate

/-!
Creating folders. What is new afterwards are folders on the way to the path, and the path leads to a
folder that was there before or is new itself.
-/

namespace DocNavigation.Disk

theorem lastName_plain (path : String) (names : List String) (s : String)
    (h : Path.Plain path (names ++ [s])) : lastName path = (Path.folder path, s) := by
  obtain ⟨-, hs⟩ := Path.split_plain path names s h
  have hfull := (h.names s (by simp)).full
  unfold lastName
  simp only [hs, if_neg hfull]
  rfl

theorem lastName_root (path : String) (h : Path.Plain path []) : (lastName path).2 = "" := by
  unfold lastName
  simp only [Path.split_root path h, if_true]

/-- The second disk has new folders only, all of them on the way to a place. -/
structure Grown (d d' : Disk) (q : Place) : Prop where
  workdir : d'.workdir = d.workdir
  failing : d'.failing = d.failing
  kept : ∀ p e, d.at? p = some e → d'.at? p = some e
  new : ∀ p e, d'.at? p = some e → d.at? p = some e ∨ (e = .folder ∧ p <+: q)

theorem Grown.refl (d : Disk) (q : Place) : Grown d d q :=
  ⟨rfl, rfl, fun _ _ h => h, fun _ _ h => .inl h⟩

theorem Grown.trans (d d₁ d' : Disk) (q q' : Place) (h : Grown d d₁ q) (h' : Grown d₁ d' q')
    (hq : q <+: q') : Grown d d' q' := by
  refine ⟨h'.workdir.trans h.workdir, h'.failing.trans h.failing,
    fun p e hp => h'.kept p e (h.kept p e hp), ?_⟩
  intro p e hp
  rcases h'.new p e hp with hp | hp
  · rcases h.new p e hp with hp | ⟨he, hpq⟩
    · exact .inl hp
    · exact .inr ⟨he, hpq.trans hq⟩
  · exact .inr hp

theorem WellFormed.prefix_folder (d : Disk) (hd : d.WellFormed) (p q : Place) (hpq : p <+: q)
    (hq : d.at? q = some .folder) : d.at? p = some .folder := by
  obtain ⟨rest, rfl⟩ := hpq
  induction rest using List.reverseRecOn with
  | nil =>
    rw [List.append_nil] at hq
    exact hq
  | append_singleton rest s ih =>
    rw [← List.append_assoc] at hq
    exact ih (hd.above _ s _ hq)

/-- Where the last of the folders was there before, nothing is new. -/
theorem Grown.same (d d' : Disk) (q : Place) (hd : d.WellFormed) (h : Grown d d' q)
    (hq : d.at? q = some .folder) : Keeps d' d := by
  have hback : ∀ p e, d'.at? p = some e → d.at? p = some e := by
    intro p e hp
    rcases h.new p e hp with hp | ⟨rfl, hpq⟩
    · exact hp
    · exact hd.prefix_folder d p q hpq hq
  exact ⟨h.workdir.symm, fun p hp => hback p _ hp, fun p t hp => hback p _ hp⟩

theorem run_attempt (step : DiskStep) (d : Disk) :
    (attempt step).run d = (if d.failing.contains step then .error .device else .ok (), d) := by
  unfold attempt
  rw [Effect.run_bind, Effect.run_get]
  by_cases h : d.failing.contains step = true
  · simp only [h, if_true]
    rfl
  · simp only [h]
    rfl

theorem run_apply (f : Disk → Except DiskError Disk) (d : Disk) :
    (apply f).run d = match f d with
      | .ok d' => (.ok (), d')
      | .error e => (.error e, d) := by
  unfold apply
  rw [Effect.run_bind, Effect.run_get]
  cases hf : f d with
  | ok d' =>
    simp only [hf]
    rfl
  | error e =>
    simp only [hf]
    rfl

theorem run_makeFolder (path : String) (d : Disk) :
    (makeFolder path).run d =
      if d.failing.contains .makeFolder then (.error .device, d)
      else match d.resolve false path with
        | .error e => (.error e, d)
        | .ok (.entry ..) => (.error (.refused .taken path none), d)
        | .ok (.vacant p) => (.ok (), d.put p .folder) := by
  rw [makeFolder, Effect.run_bind, run_attempt]
  by_cases h : d.failing.contains .makeFolder = true
  · rw [if_pos h, if_pos h]
  · rw [if_neg h, if_neg h]
    simp only
    rw [run_apply]
    cases hr : d.resolve false path with
    | error e => rfl
    | ok f =>
      cases f with
      | entry p e => rfl
      | vacant p => rfl

theorem makeFolder_ok (d d' : Disk) (path : String) (h : (makeFolder path).run d = (.ok (), d')) :
    ∃ p, d.resolve false path = .ok (.vacant p) ∧ d' = d.put p .folder := by
  rw [run_makeFolder] at h
  split at h
  · cases h
  · split at h
    case h_1 => cases h
    case h_2 => cases h
    case h_3 p hp =>
      cases h
      exact ⟨p, hp, rfl⟩

theorem makeFolder_error (d d' : Disk) (path : String) (e : DiskError)
    (h : (makeFolder path).run d = (.error e, d')) : d' = d := by
  rw [run_makeFolder] at h
  split at h
  · cases h
    rfl
  · split at h
    case h_1 =>
      cases h
      rfl
    case h_2 =>
      cases h
      rfl
    case h_3 => cases h

/-- Creates the last folder of a path. -/
def makeLast (path : String) : DiskAct Unit := do
  try makeFolder path
  catch e => if (← get).isFolder path then pure () else throw e

theorem run_makeLast (path : String) (d : Disk) :
    (makeLast path).run d = match (makeFolder path).run d with
      | (.ok _, t) => (.ok (), t)
      | (.error e, t) => (if t.isFolder path then .ok () else .error e, t) := by
  rw [makeLast, Effect.run_tryCatch]
  cases (makeFolder path).run d with
  | mk r t =>
    cases r with
    | ok _ => rfl
    | error e =>
      simp only
      rw [Effect.run_bind, Effect.run_get]
      by_cases hf : t.isFolder path = true
      · simp only [hf, if_true]
        rfl
      · simp only [hf]
        rfl

theorem makeLast_ok (d d' : Disk) (path : String) (h : (makeLast path).run d = (.ok (), d')) :
    (∃ p, d.resolve false path = .ok (.vacant p) ∧ d' = d.put p .folder) ∨
      (d.isFolder path = true ∧ d' = d) := by
  rw [run_makeLast] at h
  split at h
  case h_1 t hmade =>
    cases h
    exact .inl (makeFolder_ok d d' path hmade)
  case h_2 e t hmade =>
    have hsame := makeFolder_error d t path e hmade
    subst hsame
    split at h
    case isTrue hfolder =>
      cases h
      exact .inr ⟨hfolder, rfl⟩
    case isFalse => cases h

theorem makeLast_failed (d d' : Disk) (path : String) (e : DiskError)
    (h : (makeLast path).run d = (.error e, d')) : d' = d := by
  rw [run_makeLast] at h
  split at h
  case h_1 => cases h
  case h_2 e' t hmade =>
    rw [← makeFolder_error d t path e' hmade]
    exact (congrArg Prod.snd h).symm

theorem makeLast_error (d d' : Disk) (path : String) (e : DiskError)
    (h : (makeLast path).run d = (.error e, d')) : d'.isFolder path = false := by
  rw [run_makeLast] at h
  split at h
  case h_1 => cases h
  case h_2 =>
    split at h
    case isTrue => cases h
    case isFalse hfolder =>
      cases h
      exact Bool.eq_false_iff.mpr hfolder

/-- The folders above a path have to be created first. -/
def Lacks (d : Disk) (path : String) : Prop :=
  (lastName path).1 ≠ "" ∧ (lastName path).2 ≠ "" ∧ d.isThere (lastName path).1 = false

/-- What the disk is like when the turn of the last folder comes. -/
structure Prepared (fuel : Nat) (path : String) (d d₁ : Disk) : Prop where
  made : d.Lacks path → (makeFoldersBelow fuel (lastName path).1).run d = (.ok (), d₁) ∨
    ∃ p t, (makeFoldersBelow fuel (lastName path).1).run d = (.error (.refused .taken p t), d₁)
  same : ¬ d.Lacks path → d₁ = d

theorem run_makeFoldersBelow (fuel : Nat) (path : String) (d d' : Disk) (r : Except DiskError Unit)
    (h : (makeFoldersBelow (fuel + 1) path).run d = (r, d')) :
    (∃ d₁, Prepared fuel path d d₁ ∧ (makeLast path).run d₁ = (r, d')) ∨
      ∃ e, r = .error e ∧ (∀ p t, e ≠ .refused .taken p t) ∧ d.Lacks path ∧
        (makeFoldersBelow fuel (lastName path).1).run d = (.error e, d') := by
  unfold makeFoldersBelow at h
  simp only at h
  rw [Effect.run_bind, Effect.run_get] at h
  simp only at h
  split at h
  case isTrue hlacks =>
    have hlacks : d.Lacks path := by simpa [Lacks] using hlacks
    rw [Effect.run_bind, Effect.run_tryCatch] at h
    cases hrun : (makeFoldersBelow fuel (lastName path).1).run d with
    | mk r₁ d₁ =>
      rw [hrun] at h
      cases r₁ with
      | ok _ =>
        exact .inl ⟨d₁, ⟨fun _ => .inl hrun, fun hno => absurd hlacks hno⟩, h⟩
      | error e =>
        -- only a name that is taken lets the last folder have its turn
        cases e with
        | refused refusal p t =>
          cases refusal with
          | taken => exact .inl ⟨d₁, ⟨fun _ => .inr ⟨p, t, hrun⟩, fun hno => absurd hlacks hno⟩, h⟩
          | _ =>
            cases h
            exact .inr ⟨_, rfl, nofun, hlacks, rfl⟩
        | _ =>
          cases h
          exact .inr ⟨_, rfl, nofun, hlacks, rfl⟩
  case isFalse hlacks =>
    have hlacks : ¬ d.Lacks path := by simpa [Lacks] using hlacks
    exact .inl ⟨d, ⟨fun hyes => absurd hyes hlacks, fun _ => rfl⟩, h⟩

theorem makeFoldersBelow_taken (fuel : Nat) (path : String) (d d' : Disk) (p : String)
    (t : Option String)
    (h : (makeFoldersBelow fuel path).run d = (.error (.refused .taken p t), d')) :
    d'.isFolder path = false := by
  cases fuel with
  | zero => cases h
  | succ fuel =>
    rcases run_makeFoldersBelow fuel path d d' _ h with ⟨d₁, -, hlast⟩ | ⟨e, he, hother, -⟩
    · exact makeLast_error d₁ d' path _ hlast
    · cases he
      exact absurd rfl (hother p t)

/-- The path leads to a folder, which is new with those above it or was there before. -/
structure MadeUpTo (d d' : Disk) (path : String) (q : Place) : Prop where
  found : d'.find true path = .ok (.entry q .folder)
  wellFormed : d'.WellFormed
  grown : Grown d d' q

theorem put_last (d : Disk) (hd : d.WellFormed) (path : String) (names : List String)
    (hplain : Path.Plain path names) (p : Place) (hp : d.find false path = .ok (.vacant p)) :
    MadeUpTo d (d.put p .folder) path p := by
  obtain ⟨q, s, rfl, hfree, hq, -⟩ := vacant_last d hd path names hplain p hp
  have hne : q ++ [s] ≠ [] := by simp
  have hat := fun r => at?_put d (q ++ [s]) r .folder hne
  refine ⟨?_, ?_, ⟨rfl, rfl, ?_, ?_⟩⟩
  · have hhere : (d.put (q ++ [s]) .folder).at? (q ++ [s]) = some .folder := by
      rw [hat, if_pos rfl]
    have hcarried := find_carried d _ (put_keeps d _ .folder hne hfree) false path _ hp
    have hfound : (d.put (q ++ [s]) .folder).find false path = .ok (.entry (q ++ [s]) .folder) := by
      rw [hcarried (by simp [hhere]), landing, hhere]
    exact find_end _ path _ (by simp) hfound
  · apply put_wellFormed d hd q s .folder hq
    simp [hfree]
  · intro r e hr
    rw [hat, if_neg]
    · exact hr
    · intro hrq
      rw [hrq, hfree] at hr
      cases hr
  · intro r e hr
    rw [hat] at hr
    split at hr
    case isTrue hrq =>
      cases hr
      rw [hrq]
      exact .inr ⟨rfl, List.prefix_rfl⟩
    case isFalse => exact .inl hr

/-- What the turn of the last folder comes to. -/
theorem makeLast_found (d d' : Disk) (path : String) (h : (makeLast path).run d = (.ok (), d')) :
    path.toList.contains '\x00' = false ∧
      ((∃ p, d.find false path = .ok (.vacant p) ∧ d' = d.put p .folder) ∨
        ∃ q, d.find true path = .ok (.entry q .folder) ∧ d' = d) := by
  rcases makeLast_ok d d' path h with ⟨p, hp, rfl⟩ | ⟨hfolder, rfl⟩
  · obtain ⟨hnull, hp⟩ := (resolve_eq_ok_iff d false path _).mp hp
    exact ⟨hnull, .inl ⟨p, hp, rfl⟩⟩
  · obtain ⟨q, hq⟩ := (isFolder_iff d' path).mp hfolder
    obtain ⟨hnull, hq⟩ := (resolve_eq_ok_iff d' true path _).mp hq
    exact ⟨hnull, .inr ⟨q, hq, rfl⟩⟩

/-- A folder that was not there before has nothing in it yet. -/
theorem MadeUpTo.empty (d d₁ : Disk) (path : String) (y : Place) (hd : d.WellFormed)
    (h : MadeUpTo d d₁ path y) (hnull : path.toList.contains '\x00' = false)
    (hgone : d.isThere path = false) (s : String) : d₁.at? (y ++ [s]) = none := by
  have hnew : d.at? y ≠ some .folder := by
    intro hy
    have hback := find_carried d₁ d (h.grown.same d d₁ y hd hy) true _ _ h.found
    rw [isThere_of_find d path y .folder hnull hback] at hgone
    cases hgone
  by_contra hsome
  obtain ⟨e, he⟩ := Option.ne_none_iff_exists'.mp hsome
  rcases h.grown.new _ e he with he | ⟨-, hbelow⟩
  · exact hnew (hd.above y s e he)
  · have hlength := hbelow.length_le
    rw [List.length_append, List.length_singleton] at hlength
    omega

/-- The last folder is put into the folder that was made for it. -/
theorem MadeUpTo.put_last (d d₁ : Disk) (path : String) (names : List String) (y p : Place)
    (hplain : Path.Plain path names) (h : MadeUpTo d d₁ (Path.folder path) y)
    (hp : d₁.find false path = .ok (.vacant p)) : MadeUpTo d (d₁.put p .folder) path p := by
  obtain ⟨hfound, hformed, hgrown⟩ := Disk.put_last d₁ h.wellFormed path names hplain p hp
  obtain ⟨q, s, rfl, -, -, hq⟩ := vacant_last d₁ h.wellFormed path names hplain p hp
  rw [h.found] at hq
  cases hq
  exact ⟨hfound, hformed, h.grown.trans d d₁ _ y _ hgrown (List.prefix_append y [s])⟩

theorem isFolder_above (d : Disk) (atEnd : Bool) (path : String) (names : List String) (s : String)
    (hplain : Path.Plain path (names ++ [s])) (hnull : path.toList.contains '\x00' = false) (f : Found)
    (hf : d.find atEnd path = .ok f) : d.isFolder (Path.folder path) = true := by
  obtain ⟨q, hq, -⟩ := find_snoc d atEnd path names s hplain f hf
  apply (isFolder_iff d (Path.folder path)).mpr
  exact ⟨q, (resolve_eq_ok_iff d true _ _).mpr ⟨Path.folder_noNull path hnull, hq⟩⟩

theorem makeFoldersBelow_ok (fuel : Nat) (path : String) (names : List String) (d d' : Disk)
    (hd : d.WellFormed) (hplain : Path.Plain path names) (hfuel : path.length < fuel)
    (h : (makeFoldersBelow fuel path).run d = (.ok (), d')) : ∃ q, MadeUpTo d d' path q := by
  induction fuel generalizing path names d d' with
  | zero => omega
  | succ fuel ih =>
    obtain ⟨d₁, hprepared, hlast⟩ | ⟨e, he, -⟩ := run_makeFoldersBelow fuel path d d' _ h
    case inr => cases he
    by_cases hlacks : d.Lacks path
    case neg =>
      rw [hprepared.same hlacks] at hlast
      obtain ⟨-, ⟨p, hp, rfl⟩ | ⟨q, hq, rfl⟩⟩ := makeLast_found d d' path hlast
      · exact ⟨p, put_last d hd path names hplain p hp⟩
      · exact ⟨q, hq, hd, Grown.refl d' q⟩
    obtain ⟨names, s, rfl⟩ := (List.eq_nil_or_concat' names).resolve_left (by
      intro hnames
      subst hnames
      exact hlacks.2.1 (lastName_root path hplain))
    have habove : Path.Plain (Path.folder path) names := (Path.split_plain path names s hplain).1
    have hshort := Path.folder_shorter path names s hplain
    have hlastName : (lastName path).1 = Path.folder path := by
      rw [lastName_plain path names s hplain]
    have hgone := hlacks.2.2
    have hmade := hprepared.made hlacks
    rw [hlastName] at hgone hmade
    obtain ⟨hnull, hcases⟩ := makeLast_found d₁ d' path hlast
    rcases hmade with hok | ⟨p, t, htaken⟩
    · obtain ⟨y, hy⟩ := ih _ names d d₁ hd habove (by omega) hok
      rcases hcases with ⟨p, hp, rfl⟩ | ⟨q, hq, rfl⟩
      · exact ⟨p, hy.put_last d d₁ path _ y p hplain hp⟩
      · -- the folder above is new, so that the last one cannot be there
        have hfree := hy.empty d d' _ y hd (Path.folder_noNull path hnull) hgone s
        obtain ⟨y', hy', hend⟩ := find_snoc d' true path names s hplain _ hq
        rw [hy.found] at hy'
        cases hy'
        have hlanding := hend.lands (.inl (by simp [hfree]))
        rw [landing, hfree] at hlanding
        cases hlanding
    · -- a name that is taken is no folder, so that nothing can be below it
      have hnofolder := makeFoldersBelow_taken fuel _ d d₁ p t htaken
      have hfolder : d₁.isFolder (Path.folder path) = true := by
        rcases hcases with ⟨p, hp, -⟩ | ⟨q, hq, -⟩
        · exact isFolder_above d₁ false path names s hplain hnull _ hp
        · exact isFolder_above d₁ true path names s hplain hnull _ hq
      rw [hnofolder] at hfolder
      cases hfolder

theorem makeFolders_ok (path : String) (names : List String) (d d' : Disk) (hd : d.WellFormed)
    (hplain : Path.Plain path names) (h : (makeFolders path).run d = (.ok (), d')) :
    ∃ q, MadeUpTo d d' path q :=
  makeFoldersBelow_ok (path.length + 1) path names d d' hd hplain (by omega) h

/-- Making folders that fails has changed nothing, or made the folders up to one further up. -/
theorem makeFoldersBelow_failed (fuel : Nat) (path : String) (names : List String) (d d' : Disk)
    (e : DiskError) (hd : d.WellFormed) (hplain : Path.Plain path names) (hfuel : path.length < fuel)
    (h : (makeFoldersBelow fuel path).run d = (.error e, d')) :
    d' = d ∨ ∃ up q, MadeUpTo d d' (Path.folder^[up + 1] path) q := by
  induction fuel generalizing path names d' e with
  | zero => omega
  | succ fuel ih =>
    have hlacking : d.Lacks path → Path.Plain (Path.folder path) names.dropLast ∧
        (Path.folder path).length < fuel ∧ (lastName path).1 = Path.folder path := by
      intro hlacks
      obtain ⟨names, s, rfl⟩ := (List.eq_nil_or_concat' names).resolve_left (by
        rintro rfl
        exact hlacks.2.1 (lastName_root path hplain))
      have hshort := Path.folder_shorter path names s hplain
      rw [List.dropLast_concat, lastName_plain path names s hplain]
      exact ⟨(Path.split_plain path names s hplain).1, by omega, rfl⟩
    -- what the folder above was left as is what is left in the end
    have habove : ∀ e, d.Lacks path →
        (makeFoldersBelow fuel (lastName path).1).run d = (.error e, d') →
        d' = d ∨ ∃ up q, MadeUpTo d d' (Path.folder^[up + 1] path) q := by
      intro e hlacks hrun
      obtain ⟨hfolder, hshort, hlast⟩ := hlacking hlacks
      rw [hlast] at hrun
      exact (ih _ _ d' e hfolder hshort hrun).imp_right fun ⟨up, q, hmade⟩ => ⟨up + 1, q, hmade⟩
    rcases run_makeFoldersBelow fuel path d d' _ h with ⟨d₁, hprepared, hlast⟩ |
      ⟨e', he, -, hlacks, hrun⟩
    · obtain rfl := makeLast_failed d₁ d' path e hlast
      by_cases hlacks : d.Lacks path
      · rcases hprepared.made hlacks with hok | ⟨p, t, htaken⟩
        · obtain ⟨hfolder, hshort, hname⟩ := hlacking hlacks
          rw [hname] at hok
          obtain ⟨q, hmade⟩ := makeFoldersBelow_ok fuel _ _ d d' hd hfolder hshort hok
          exact .inr ⟨0, q, hmade⟩
        · exact habove _ hlacks htaken
      · exact .inl (hprepared.same hlacks)
    · exact habove e' hlacks hrun

theorem makeFolders_failed (path : String) (names : List String) (d d' : Disk) (e : DiskError)
    (hd : d.WellFormed) (hplain : Path.Plain path names)
    (h : (makeFolders path).run d = (.error e, d')) :
    d' = d ∨ ∃ up q, MadeUpTo d d' (Path.folder^[up + 1] path) q :=
  makeFoldersBelow_failed (path.length + 1) path names d d' e hd hplain (by omega) h

/-- Where the folder above is there, only the last folder has its turn. -/
theorem run_makeFolders_last (d : Disk) (path : String) (h : ¬ d.Lacks path) :
    (makeFolders path).run d = (makeLast path).run d := by
  have hno : ¬ ((lastName path).1 ≠ "" ∧ (lastName path).2 ≠ "" ∧
      (!d.isThere (lastName path).1) = true) := by
    simpa [Lacks] using h
  rw [makeFolders, makeFoldersBelow]
  simp only
  rw [Effect.run_bind, Effect.run_get]
  simp only [hno, if_false]
  rfl

theorem not_lacks (d : Disk) (path : String) (names : List String) (hplain : Path.Plain path names)
    (h : ∀ init s, names = init ++ [s] → d.isFolder (Path.folder path) = true) : ¬ d.Lacks path := by
  intro ⟨_, hname, hgone⟩
  obtain ⟨init, s, rfl⟩ := (List.eq_nil_or_concat' names).resolve_left (by
    intro hnames
    subst hnames
    exact hname (lastName_root path hplain))
  rw [lastName_plain path init s hplain] at hgone
  have hfolder := h init s rfl
  obtain ⟨q, hq⟩ := (isFolder_iff d _).mp hfolder
  obtain ⟨hnull, hq⟩ := (resolve_eq_ok_iff d true _ _).mp hq
  have hthere := isThere_of_find d (Path.folder path) q .folder hnull hq
  exact absurd (hthere.symm.trans hgone) (by decide)

/-- A folder that is there already is left alone, whatever the device can do. -/
theorem makeFolders_there (d : Disk) (path : String) (names : List String)
    (hplain : Path.Plain path names) (h : d.isFolder path = true) :
    (makeFolders path).run d = (.ok (), d) := by
  obtain ⟨q, hq⟩ := (isFolder_iff d path).mp h
  obtain ⟨hnull, hfound⟩ := (resolve_eq_ok_iff d true path _).mp hq
  have habove : ∀ init s, names = init ++ [s] → d.isFolder (Path.folder path) = true := by
    intro init s hnames
    exact isFolder_above d true path init s (hnames ▸ hplain) hnull _ hfound
  rw [run_makeFolders_last d path (not_lacks d path names hplain habove), run_makeLast]
  cases hmade : (makeFolder path).run d with
  | mk r t =>
    cases r with
    | ok _ =>
      obtain ⟨p, hp, -⟩ := makeFolder_ok d t path hmade
      have hvacant := find_end d path _ (by simp) ((resolve_eq_ok_iff d false path _).mp hp).2
      rw [hfound] at hvacant
      cases hvacant
    | error e =>
      cases makeFolder_error d t path e hmade
      simp only [h, if_true]

section
variable (R : Disk → Disk → Prop) (hrefl : ∀ d, R d d)
  (htrans : ∀ d d₁ d', R d d₁ → R d₁ d' → R d d')
  (P : String → Prop) (hup : ∀ path, P path → P (lastName path).1)
  (hone : ∀ d p path, P path → d.resolve false path = .ok (.vacant p) → R d (d.put p .folder))
include hrefl hone

theorem makeLast_leads (path : String) (hpath : P path) (d : Disk) :
    R d ((makeLast path).run d).2 := by
  have hmade : R d ((makeFolder path).run d).2 := by
    rw [run_makeFolder]
    split
    · exact hrefl d
    · split
      · exact hrefl d
      · exact hrefl d
      · next p hp => exact hone d p path hpath hp
  rw [run_makeLast]
  generalize (makeFolder path).run d = made at hmade ⊢
  obtain ⟨r, d'⟩ := made
  cases r with
  | ok _ => exact hmade
  | error _ => exact hmade

include htrans hup

theorem makeFoldersBelow_leads (fuel : Nat) (path : String) (hpath : P path) (d : Disk) :
    R d ((makeFoldersBelow fuel path).run d).2 := by
  induction fuel generalizing path d with
  | zero => exact hrefl d
  | succ fuel ih =>
    unfold makeFoldersBelow
    simp only
    rw [Effect.run_bind, Effect.run_get]
    simp only
    split
    case isFalse => exact makeLast_leads R hrefl P hone path hpath d
    case isTrue =>
      have habove := ih (lastName path).1 (hup path hpath) d
      rw [Effect.run_bind, Effect.run_tryCatch]
      generalize (makeFoldersBelow fuel (lastName path).1).run d = made at habove ⊢
      obtain ⟨r, d₁⟩ := made
      have hlast := htrans d d₁ _ habove (makeLast_leads R hrefl P hone path hpath d₁)
      cases r with
      | ok _ => exact hlast
      | error e =>
        -- a name that is taken lets the last folder have its turn, and nothing else does
        cases e with
        | refused refusal p t =>
          cases refusal with
          | taken => exact hlast
          | _ => exact habove
        | _ => exact habove

/-- What every single new folder on the way to a path does to a disk, making folders does, also when
it fails half way. -/
theorem makeFolders_leads (path : String) (hpath : P path) (d : Disk) :
    R d ((makeFolders path).run d).2 :=
  makeFoldersBelow_leads R hrefl htrans P hup hone _ path hpath d

end

/-- All that was there is there still, and what is new are folders. -/
structure Gains (d d' : Disk) : Prop where
  workdir : d'.workdir = d.workdir
  failing : d'.failing = d.failing
  kept : ∀ p e, d.at? p = some e → d'.at? p = some e
  new : ∀ p e, d'.at? p = some e → d.at? p = some e ∨ e = .folder

theorem Gains.refl (d : Disk) : Gains d d :=
  ⟨rfl, rfl, fun _ _ h => h, fun _ _ h => .inl h⟩

theorem Gains.trans (d d₁ d' : Disk) (h : Gains d d₁) (h' : Gains d₁ d') : Gains d d' := by
  refine ⟨h'.workdir.trans h.workdir, h'.failing.trans h.failing,
    fun p e hp => h'.kept p e (h.kept p e hp), ?_⟩
  intro p e hp
  rcases h'.new p e hp with hp | he
  · exact h.new p e hp
  · exact .inr he

theorem Gains.extends (d d' : Disk) (h : Gains d d') : Extends d d' :=
  ⟨h.workdir, h.kept⟩

theorem gains_put (d : Disk) (p : Place) (hne : p ≠ []) (hfree : d.at? p = none) :
    Gains d (d.put p .folder) := by
  have hput := fun q => at?_put d p q .folder hne
  refine ⟨rfl, rfl, ?_, ?_⟩
  · intro q e hq
    rw [hput, if_neg]
    · exact hq
    · rintro rfl
      rw [hfree] at hq
      cases hq
  · intro q e hq
    rw [hput] at hq
    split at hq
    · exact .inr (Option.some.inj hq).symm
    · exact .inl hq

/-- Making folders adds folders and nothing else, whatever the path and whether it goes well. -/
theorem gains_makeFolders (path : String) (d : Disk) (hd : d.WellFormed) :
    ((makeFolders path).run d).2.WellFormed ∧ Gains d ((makeFolders path).run d).2 := by
  refine makeFolders_leads (fun d d' => d.WellFormed → d'.WellFormed ∧ Gains d d') ?_ ?_
    (fun _ => True) (fun _ _ => trivial) ?_ path trivial d hd
  · exact fun d hd => ⟨hd, .refl d⟩
  · intro d d₁ d' h h' hd
    obtain ⟨hd₁, hgains⟩ := h hd
    obtain ⟨hd', hgains'⟩ := h' hd₁
    exact ⟨hd', hgains.trans d d₁ d' hgains'⟩
  · intro d p path _ hp hd
    obtain ⟨-, hp⟩ := (resolve_eq_ok_iff d false path _).mp hp
    obtain ⟨hfree, q, s, rfl, hq⟩ := find_located d hd false path _ hp
    exact ⟨put_wellFormed d hd q s _ hq (by rw [hfree]; exact nofun),
      gains_put d _ (by simp) hfree⟩

end DocNavigation.Disk
