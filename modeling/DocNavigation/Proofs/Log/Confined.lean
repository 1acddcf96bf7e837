import DocNavigation.Log.Files
import DocNavigation.Proofs.Disk.Aside

/-!
Log files that are kept aside. Opening a log file, and every line that is added to it, changes a
disk at places set aside only: those of the file, of the old files, and of folders made for them.
-/

namespace DocNavigation

namespace Disk

section
variable (aside : Place → Prop)

/-- What paths are followed through when things are moved about aside. -/
def groundBut (d : Disk) : Ground where
  links q t := d.at? q = some (.link t) ∨ (aside q ∧ ∃ r, aside r ∧ d.at? r = some (.link t))
  opens q := d.ground.opens q ∨ aside q

/-- The places that making a path can add or change lie aside: where it ends, and what is missing on
the way. -/
def Confined (d : Disk) (path : String) : Prop :=
  ∀ rest q, d.Passes (groundBut aside d) path rest q → rest = [] ∨ d.at? q = none → aside q

/-- What became of a disk that is changed aside. -/
structure ChangedAside (d₀ d d' : Disk) : Prop where
  same : SameBut aside d d'
  later : Later aside d₀ d'

end

variable {aside : Place → Prop} {d₀ d : Disk}

theorem Later.passes {d' : Disk} (h : Later aside d₀ d') (path : String) (rest : List String)
    (q : Place) (hpass : d'.Passes d'.ground path rest q) :
    d₀.Passes (groundBut aside d₀) path rest q := by
  rw [Passes, h.start] at hpass
  apply hpass.mono
  · intro r t rest _ hlink
    by_cases hr : aside r
    · exact .inr ⟨hr, h.moved r t hr hlink⟩
    · exact .inl (h.links r t hr hlink)
  · intro r rest _ hopen
    by_cases hr : aside r
    · exact .inr hr
    · exact .inl (h.opens d₀ d' r hr hopen)

/-- Where a confined path ends. -/
theorem Confined.last {d' : Disk} (h : Later aside d₀ d') (path : String)
    (hpath : Confined aside d₀ path) (q : Place) (hq : d'.Passes d'.ground path [] q) : aside q :=
  hpath [] q (h.passes path [] q hq) (.inl rfl)

/-- A change at a place set aside. -/
theorem ChangedAside.only {d' d'' : Disk} (h : ChangedAside aside d₀ d d') (p : Place)
    (hp : aside p) (hworkdir : d''.workdir = d'.workdir) (hfailing : d''.failing = d'.failing)
    (hother : ∀ q, q ≠ p → d''.at? q = d'.at? q)
    (hlink : ∀ t, d''.at? p = some (.link t) → ∃ r, aside r ∧ d₀.at? r = some (.link t)) :
    ChangedAside aside d₀ d d'' := by
  have hrest : ∀ q, ¬ aside q → d''.at? q = d'.at? q := by
    intro q hq
    apply hother q
    rintro rfl
    exact hq hp
  refine ⟨⟨hworkdir.trans h.same.workdir, hfailing.trans h.same.failing,
    fun q hq => (hrest q hq).trans (h.same.entries q hq)⟩, hworkdir.trans h.later.workdir,
    ?_, ?_, ?_, ?_⟩
  · intro q t hq hat
    rw [hrest q hq] at hat
    exact h.later.links q t hq hat
  · intro q hq hat
    rw [hrest q hq] at hat
    exact h.later.free q hq hat
  · intro q hq hat
    rw [hrest q hq] at hat
    exact h.later.folders q hq hat
  · intro q t hq hat
    by_cases hqp : q = p
    · rw [hqp] at hat
      exact hlink t hat
    · rw [hother q hqp] at hat
      exact h.later.moved q t hq hat

theorem ChangedAside.put {d' : Disk} (h : ChangedAside aside d₀ d d') (p : Place) (e : DiskEntry)
    (hne : p ≠ []) (hp : aside p)
    (hlink : ∀ t, e = .link t → ∃ r, aside r ∧ d₀.at? r = some (.link t)) :
    ChangedAside aside d₀ d (d'.put p e) := by
  refine h.only p hp rfl rfl (fun q hq => by rw [at?_put d' p q e hne, if_neg hq]) fun t ht => ?_
  rw [at?_put d' p p e hne, if_pos rfl] at ht
  exact hlink t (Option.some.inj ht)

theorem ChangedAside.erase {d' : Disk} (h : ChangedAside aside d₀ d d') (p : Place) (hne : p ≠ [])
    (hp : aside p) : ChangedAside aside d₀ d (d'.erase p) := by
  refine h.only p hp rfl rfl (fun q hq => by rw [at?_erase d' p q hne, if_neg hq]) fun t ht => ?_
  rw [at?_erase d' p p hne, if_pos rfl] at ht
  cases ht

/-- The place of a file that is opened for writing is met last. -/
theorem writable_met (d : Disk) (path : String) (p : Place) (h : d.writable path = .ok p) :
    ¬ Text.endsWith "/" path = true ∧ d.Passes d.ground path [] p := by
  unfold writable at h
  by_cases hslash : Text.endsWith "/" path = true
  · rw [if_pos hslash] at h
    simp only at h
    split at h
    · cases h
    · split at h <;> cases h
  rw [if_neg hslash] at h
  refine ⟨hslash, ?_⟩
  cases hr : d.resolve true path with
  | error e =>
    rw [hr] at h
    cases h
  | ok f =>
    rw [hr] at h
    have hfolder : ∀ q, f ≠ .entry q .folder := by
      rintro q rfl
      cases h
    have hplace : f.place = p := by
      rcases f with ⟨q, _ | _ | _⟩ | q <;> cases h <;> rfl
    obtain ⟨q, hq, hf⟩ := find_met_noFolder d true path f hfolder
      ((resolve_eq_ok_iff d true path f).mp hr).2
    rw [← hplace, hf, landing_place]
    exact hq

theorem preserves_attempt (I : Disk → Prop) (step : DiskStep) :
    Effect.Preserves I (attempt step) := by
  intro d hd
  rw [run_attempt]
  exact hd

theorem preserves_put (p : Place) (bytes : ByteArray) (hne : p ≠ []) (hp : aside p) :
    Effect.Preserves (ChangedAside aside d₀ d) (modify (·.put p (.file bytes)) : DiskAct PUnit) :=
  Effect.preserves_modify _ fun _ he => he.put p (.file bytes) hne hp nofun

theorem preserves_appendFile (path : String) (bytes : ByteArray) (hpath : Confined aside d₀ path) :
    Effect.Preserves (ChangedAside aside d₀ d) (appendFile path bytes) := by
  refine Effect.preserves_get_bind _ fun e he => ?_
  cases hw : e.writable path with
  | error fault => exact he
  | ok p =>
    obtain ⟨-, hmet⟩ := writable_met e path p hw
    have hp := hpath.last he.later path p hmet
    have hput : ∀ bytes, Effect.Preserves (ChangedAside aside d₀ d)
        (modify (·.put p (.file bytes)) : DiskAct PUnit) :=
      fun bytes => preserves_put p bytes hmet.ne_nil hp
    have hattempt := preserves_attempt (ChangedAside aside d₀ d)
    refine Effect.Preserves.bind (hattempt .create) (fun _ => ?_) e he
    refine Effect.Preserves.bind (hput _) fun _ => ?_
    exact Effect.Preserves.bind (hattempt .write) fun _ => hput _

/-- Folders that are missing on the way to a confined path are made aside. -/
theorem preserves_makeFolders (path : String)
    (hpath : ∀ rest q, d₀.Passes (groundBut aside d₀) path rest q → d₀.at? q = none → aside q) :
    Effect.Preserves (ChangedAside aside d₀ d) (makeFolders path) := by
  refine fun e he => makeFolders_leads
    (fun e e' => ChangedAside aside d₀ d e → ChangedAside aside d₀ d e') (fun _ h => h)
    (fun _ _ _ h h' hI => h' (h hI))
    (fun path => ∀ rest q, d₀.Passes (groundBut aside d₀) path rest q → d₀.at? q = none → aside q)
    ?_ ?_ path hpath e he
  · intro path hpath rest q hpass
    obtain ⟨more, hmore⟩ := d₀.passes_lastName _ path rest q hpass
    exact hpath _ q hmore
  · intro e p path hpath hp he
    obtain ⟨hmet, hfree⟩ := find_vacant e false path p ((resolve_eq_ok_iff e false path _).mp hp).2
    have haside : aside p := by
      by_contra hp
      exact hp (hpath [] p (he.later.passes path [] p hmet) (he.later.free p hp hfree))
    exact he.put p .folder hmet.ne_nil haside nofun

theorem preserves_moveFile (p : Place) (path target : String) (hne : p ≠ []) (hp : aside p)
    (htarget : Confined aside d₀ target) :
    Effect.Preserves (ChangedAside aside d₀ d) (moveFile p path target) := by
  intro e he
  cases hrun : (moveFile p path target).run e with
  | mk r e' =>
    cases r with
    | error fault =>
      rw [moveFile_failed e e' p path target fault hrun]
      exact he
    | ok _ =>
      obtain ⟨-, f, entry, hf, hfolder, hat, rfl⟩ := moveFile_ok e e' p path target hrun
      obtain ⟨q, hq, rfl⟩ := find_met_noFolder e false target f hfolder
        ((resolve_eq_ok_iff e false target f).mp hf).2
      rw [landing_place]
      refine (he.erase p hne hp).put q entry hq.ne_nil (htarget.last he.later target q hq) ?_
      rintro t rfl
      exact he.later.moved p t hp hat

end Disk

namespace LogFile

/-- A path that ends with a name. -/
def Named (path : String) : Prop :=
  ∃ z, (Disk.namesIn path).getLast? = some z ∧ z ≠ "." ∧ z ≠ ".."

theorem named_numbered (path : String) (n : Nat) : Named (numbered path n) := by
  obtain ⟨cs, c, hcs⟩ := (List.eq_nil_or_concat' (Nat.toDigits 10 n)).resolve_left
    Nat.toDigits_ne_nil
  have hdigit : c.isDigit = true :=
    Nat.isDigit_of_mem_toDigits (b := 10) (by decide) (by decide) (by rw [hcs]; simp)
  have hc : c ≠ '/' ∧ c ≠ '.' := by
    constructor <;> rintro rfl <;> exact absurd hdigit (by decide)
  have hspelled : (numbered path n).toList = (path.toList ++ '.' :: cs) ++ [c] := by
    have hnumber : (toString n).toList = Nat.toDigits 10 n := by simp [Nat.toString_eq_repr]
    change ((path ++ ".") ++ toString n).toList = _
    rw [String.toList_append, String.toList_append, hnumber, hcs]
    simp
  have hend : ¬ Text.endsWith "/" (numbered path n) = true := by
    rw [Path.endsWith_slash, hspelled, List.getLast?_concat]
    exact fun h => hc.1 (Option.some.inj h)
  obtain ⟨init, w, hpieces⟩ := Text.pieces_snoc '/' c (path.toList ++ '.' :: cs) hc.1
  have hlast : ∀ s : String, s.toList.getLast? = some '.' → String.ofList (w ++ [c]) ≠ s := by
    rintro s hs rfl
    rw [String.toList_ofList, List.getLast?_concat] at hs
    exact hc.2 (Option.some.inj hs)
  refine ⟨String.ofList (w ++ [c]), ?_, hlast "." (by decide), hlast ".." (by decide)⟩
  rw [Disk.namesIn, if_neg hend, List.append_nil, Text.split, hspelled, hpieces, List.map_append,
    List.filter_append, List.map_singleton, List.filter_cons_of_pos (by simp)]
  simp

open Disk

variable {aside : Place → Prop} {d₀ d : Disk}

theorem preserves_remove (path : String) (hpath : Confined aside d₀ path) :
    Effect.Preserves (ChangedAside aside d₀ d) (remove path) := by
  refine Effect.preserves_get_bind _ fun e he => ?_
  cases hr : e.resolve false path with
  | error fault => exact he
  | ok f =>
    have herase : (∀ q, f ≠ .entry q .folder) →
        ChangedAside aside d₀ d (e.erase f.place) := by
      intro hfolder
      obtain ⟨q, hq, rfl⟩ := find_met_noFolder e false path f hfolder
        ((resolve_eq_ok_iff e false path f).mp hr).2
      rw [landing_place]
      exact he.erase q hq.ne_nil (hpath.last he.later path q hq)
    rcases f with ⟨q, _ | _ | _⟩ | q
    · exact herase nofun
    · exact he
    · exact herase nofun
    · exact he

theorem preserves_shift (source target : String) (hnamed : Named source)
    (hsource : Confined aside d₀ source) (htarget : Confined aside d₀ target) :
    Effect.Preserves (ChangedAside aside d₀ d) (shift source target) := by
  refine Effect.Preserves.bind Effect.preserves_get fun e => ?_
  simp only
  split
  case isFalse => exact Effect.preserves_pure ()
  refine Effect.Preserves.bind_if (preserves_remove target htarget) fun _ => ?_
  refine Effect.preserves_get_bind _ fun e he => ?_
  split
  · next p entry hr =>
    obtain ⟨q, hq, hlanding⟩ := find_met e false source _ (fun _ => ⟨rfl, hnamed⟩)
      ((resolve_eq_ok_iff e false source _).mp hr).2
    have hplace : p = q := (congrArg Found.place hlanding).trans (landing_place e q)
    rw [hplace]
    exact preserves_moveFile q source target hq.ne_nil (hsource.last he.later source q hq) htarget
      e he
  · exact he

/-- The paths of a log file and of the old files that are kept. -/
def pathsOf (path : String) (backups : Int) : List String :=
  path :: (List.range backups.toNat).map fun n => numbered path (n + 1)

theorem preserves_turnOver (path : String) (backups : Nat) (hbackups : 0 < backups)
    (hnamed : Named path) (hpath : Confined aside d₀ path)
    (hold : ∀ n < backups, Confined aside d₀ (numbered path (n + 1))) :
    Effect.Preserves (ChangedAside aside d₀ d) (turnOver path backups) := by
  have hfirst := hold 0 hbackups
  have hlast : Effect.Preserves (ChangedAside aside d₀ d) (shift path (numbered path 1)) :=
    preserves_shift path _ hnamed hpath hfirst
  refine Effect.Preserves.bind ?_ fun _ => ?_
  · refine Effect.Preserves.forIn _ _ (fun n hn _ => ?_) _
    have hn : n < backups - 1 := List.mem_range.mp (List.mem_reverse.mp hn)
    have hshift := preserves_shift (d := d) _ _ (named_numbered path (n + 1))
      (hold n (by omega)) (hold (n + 1) (by omega))
    exact Effect.Preserves.bind hshift fun _ => Effect.preserves_pure _
  · refine Effect.Preserves.bind Effect.preserves_get fun e => ?_
    exact Effect.Preserves.bind_if (preserves_remove _ hfirst) fun _ => hlast

theorem preserves_append (path line : String) (maxBytes backups : Int) (hnamed : Named path)
    (h : ∀ p ∈ pathsOf path backups, Confined aside d₀ p) :
    Effect.Preserves (ChangedAside aside d₀ d) (append path line maxBytes backups) := by
  have hpath : Confined aside d₀ path := h path (List.mem_cons_self ..)
  have hold : ∀ n < backups.toNat, Confined aside d₀ (numbered path (n + 1)) := fun n hn =>
    h _ (List.mem_cons_of_mem _ (List.mem_map_of_mem (List.mem_range.mpr hn)))
  have hadd := preserves_appendFile (d := d) path line.toUTF8 hpath
  refine Effect.Preserves.bind Effect.preserves_get fun e => ?_
  split
  · split
    · next hpos =>
      exact Effect.Preserves.bind (f := fun _ => appendFile path line.toUTF8)
        (preserves_turnOver path _ (Int.pos_iff_toNat_pos.mp hpos) hnamed hpath hold) fun _ => hadd
    · exact hadd
  · exact hadd

theorem preserves_openAt (path : String) (hpath : Confined aside d₀ (d₀.absolute path)) :
    Effect.Preserves (ChangedAside aside d₀ d) (openAt path) := by
  refine Effect.preserves_get_bind _ fun e he => ?_
  have htarget : e.absolute path = d₀.absolute path := by
    rw [Disk.absolute, Disk.absolute, he.later.workdir]
  simp only
  rw [htarget]
  generalize d₀.absolute path = target at hpath
  have hfile : Effect.Preserves (ChangedAside aside d₀ d)
      (do appendFile target .empty; return target : DiskAct String) :=
    Effect.Preserves.bind (preserves_appendFile target .empty hpath) fun _ =>
      Effect.preserves_pure _
  have hfolders : Effect.Preserves (ChangedAside aside d₀ d) (makeFolders (Path.folder target)) := by
    apply preserves_makeFolders
    intro rest q hpass hfree
    obtain ⟨more, hmore⟩ := d₀.passes_split _ target rest q hpass
    exact hpath _ q hmore (.inr hfree)
  refine Effect.Preserves.bind Effect.preserves_get (fun e => ?_) e he
  split
  · exact Effect.Preserves.bind hfolders fun _ => hfile
  · exact hfile

/-- A log file that was opened has a name. -/
theorem openAt_ok (d d' : Disk) (path target : String)
    (h : (openAt path).run d = (.ok target, d')) : target = d.absolute path ∧ Named target := by
  obtain ⟨names, hplain⟩ := absolute_plain d path
  rw [openAt, Effect.run_bind, Effect.run_get] at h
  simp only at h
  generalize d.absolute path = made at h hplain ⊢
  have hfile : ∀ e, (do appendFile made .empty; return made : DiskAct String).run e =
      (.ok target, d') → target = made ∧ Named target := by
    intro e he
    obtain ⟨_, e', happend, hreturn⟩ := (Effect.bind_eq_ok_iff _ _ _ _ _).mp he
    cases hreturn
    refine ⟨rfl, ?_⟩
    have hwritable : ∃ p, e.writable target = .ok p := by
      rw [appendFile, Effect.run_bind, Effect.run_get] at happend
      simp only at happend
      split at happend
      · cases happend
      · next p hp => exact ⟨p, hp⟩
    obtain ⟨p, hp⟩ := hwritable
    obtain ⟨hslash, -⟩ := writable_met e target p hp
    have hnames := mt (Path.plain_ends target names hplain).mpr hslash
    obtain ⟨init, z, rfl⟩ := (List.eq_nil_or_concat' names).resolve_left hnames
    have hz := hplain.names z (by simp)
    rw [Named, Path.namesIn_plain target _ hplain, if_neg hnames]
    exact ⟨z, List.getLast?_concat, hz.dot, hz.dots⟩
  rw [Effect.run_bind, Effect.run_get] at h
  simp only at h
  split at h
  · obtain ⟨_, e, -, h⟩ := (Effect.bind_eq_ok_iff _ _ _ _ _).mp h
    exact hfile e h
  · exact hfile d h

end LogFile

end DocNavigation
