import DocNavigation.Proofs.Disk.WellFormed
import DocNavigation.Proofs.Path.Plain

/-!
Looking up plain paths. The last name is looked up in the folder that the rest of the path leads to,
and a free name lies in that folder.
-/

namespace DocNavigation.Disk

theorem find_plain (d : Disk) (atEnd : Bool) (path : String) (names : List String)
    (h : Path.Plain path names) : d.find atEnd path =
      if maxPathLength < path.utf8ByteSize then .error .nameTooLong
      else d.through atEnd maxLinks names [] := by
  have hroot := Path.Plain.isRooted path names h
  have hfull : path ≠ "" := by
    intro hempty
    rw [hempty] at hroot
    exact absurd hroot (by decide)
  rw [find, if_neg hfull, start, if_pos hroot, Path.namesIn_plain path names h]
  by_cases hn : names = []
  · rw [if_pos hn, hn, through_here]
  · rw [if_neg hn]

theorem find_short (d : Disk) (atEnd : Bool) (path : String) (f : Found)
    (hf : d.find atEnd path = .ok f) : path.utf8ByteSize ≤ maxPathLength :=
  ((find_eq_ok_iff d atEnd path f).mp hf).2.1

theorem find_snoc (d : Disk) (atEnd : Bool) (path : String) (names : List String) (s : String)
    (h : Path.Plain path (names ++ [s])) (f : Found) (hf : d.find atEnd path = .ok f) :
    ∃ q, d.find true (Path.folder path) = .ok (.entry q .folder) ∧ d.EndsIn atEnd q s f := by
  have hs := h.names s (by simp)
  have habove : Path.Plain (Path.folder path) names := (Path.split_plain path names s h).1
  rw [find_plain d atEnd path _ h] at hf
  split at hf
  · cases hf
  case isFalse hsize =>
    obtain ⟨q, hq, hend⟩ := leads_snoc d atEnd maxLinks s hs.dot hs.dots names [] f
      ((through_eq_ok_iff d atEnd _ _ _ f).mp hf)
    refine ⟨q, ?_, hend⟩
    have hsmall : (Path.folder path).utf8ByteSize ≤ path.utf8ByteSize := Path.split_size path
    rw [find_plain d true _ names habove, if_neg (by omega)]
    exact (through_eq_ok_iff d true _ _ _ _).mpr hq

/-- The last name of a plain path is looked up in the folder that the rest of it leads to. -/
theorem find_named (d : Disk) (above path : String) (names : List String) (s : String)
    (habove : Path.Plain above names) (hplain : Path.Plain path (names ++ [s])) (q : Place)
    (hq : d.find true above = .ok (.entry q .folder)) : d.find false path =
      if maxPathLength < path.utf8ByteSize then .error .nameTooLong else d.nameAt q s := by
  have hs := hplain.names s (by simp)
  rw [find_plain d true above names habove] at hq
  split at hq
  · cases hq
  · have hl := (through_eq_ok_iff d true _ _ _ _).mp hq
    rw [find_plain d false path _ hplain, leads_into d s hs.dot hs.dots q maxLinks names [] hl]

theorem find_into (d : Disk) (above path : String) (names : List String) (s : String)
    (habove : Path.Plain above names) (hplain : Path.Plain path (names ++ [s]))
    (hshort : path.utf8ByteSize ≤ maxPathLength) (hname : s.utf8ByteSize ≤ maxNameLength) (q : Place)
    (hq : d.find true above = .ok (.entry q .folder)) :
    d.find false path = .ok (d.landing (q ++ [s])) := by
  rw [find_named d above path names s habove hplain q hq, if_neg (Nat.not_lt.mpr hshort), nameAt,
    if_neg (Nat.not_lt.mpr hname)]

theorem find_root (d : Disk) (atEnd : Bool) (path : String) (h : Path.Plain path []) (f : Found)
    (hf : d.find atEnd path = .ok f) : f = .entry [] .folder := by
  rw [find_plain d atEnd path [] h] at hf
  split at hf
  · cases hf
  · cases hf
    rfl

theorem resolve_eq_ok_iff (d : Disk) (atEnd : Bool) (path : String) (f : Found) :
    d.resolve atEnd path = .ok f ↔ path.toList.contains '\x00' = false ∧ d.find atEnd path = .ok f := by
  unfold resolve
  by_cases hnull : path.toList.contains '\x00' = true
  · rw [if_pos hnull, hnull]
    exact ⟨nofun, nofun⟩
  · rw [if_neg hnull, Result.mapError_eq_ok_iff]
    simp only [Bool.not_eq_true] at hnull
    exact ⟨fun h => ⟨hnull, h⟩, And.right⟩

theorem isFolder_iff (d : Disk) (path : String) :
    d.isFolder path = true ↔ ∃ q, d.resolve true path = .ok (.entry q .folder) := by
  unfold isFolder entry?
  constructor
  · intro h
    have h := of_decide_eq_true h
    split at h
    case h_1 q e he =>
      cases h
      exact ⟨q, he⟩
    case h_2 => cases h
  · intro ⟨q, hq⟩
    simp [hq]

theorem isThere_of_find (d : Disk) (path : String) (p : Place) (e : DiskEntry)
    (hnull : path.toList.contains '\x00' = false) (h : d.find true path = .ok (.entry p e)) :
    d.isThere path = true := by
  rw [isThere, entry?, (resolve_eq_ok_iff d true path _).mpr ⟨hnull, h⟩]
  rfl

theorem landing_place (d : Disk) (p : Place) : (d.landing p).place = p := by
  unfold landing
  split <;> rfl

theorem landing_vacant (d : Disk) (p q : Place) (h : d.landing q = .vacant p) :
    p = q ∧ d.at? q = none := by
  unfold landing at h
  cases hq : d.at? q with
  | none =>
    rw [hq] at h
    cases h
    exact ⟨rfl, rfl⟩
  | some e =>
    rw [hq] at h
    cases h

/-- Nothing that was there is lost when a free name is used. -/
theorem put_keeps (d : Disk) (p : Place) (e : DiskEntry) (hne : p ≠ []) (hfree : d.at? p = none) :
    Keeps d (d.put p e) := by
  refine keeps_of_others d _ p rfl (fun q hq => ?_) (by simp [hfree]) (by simp [hfree])
  rw [at?_put d p q e hne, if_neg hq]

/-- A free name that a path leads to lies in the folder that the path names. -/
theorem vacant_last (d : Disk) (hd : d.WellFormed) (path : String) (names : List String)
    (hplain : Path.Plain path names) (p : Place) (hp : d.find false path = .ok (.vacant p)) :
    ∃ q s, p = q ++ [s] ∧ d.at? p = none ∧ d.at? q = some .folder ∧
      d.find true (Path.folder path) = .ok (.entry q .folder) := by
  obtain ⟨names, s, rfl⟩ := (List.eq_nil_or_concat' names).resolve_left (by
    intro hnames
    subst hnames
    cases find_root d false path hplain _ hp)
  obtain ⟨q, hq, hend⟩ := find_snoc d false path names s hplain _ hp
  obtain ⟨hpq, hfree⟩ := landing_vacant d p (q ++ [s]) (hend.lands (.inr rfl)).symm
  subst hpq
  exact ⟨q, s, rfl, hfree, find_located d hd true _ _ hq, hq⟩

theorem readFile_eq_ok_iff (d : Disk) (path : String) (bytes : ByteArray) :
    d.readFile path = .ok bytes ↔ ∃ p, d.resolve true path = .ok (.entry p (.file bytes)) := by
  unfold readFile
  cases hr : d.resolve true path with
  | error e => exact ⟨nofun, nofun⟩
  | ok f =>
    cases f with
    | vacant p => exact ⟨nofun, nofun⟩
    | entry p e =>
      cases e with
      | folder => exact ⟨nofun, nofun⟩
      | link t => exact ⟨nofun, nofun⟩
      | file old =>
        constructor
        · intro h
          exact ⟨p, by rw [Except.ok.inj h]⟩
        · intro ⟨q, hq⟩
          cases hq
          rfl

/-- Nothing that was on the first disk is missing or changed on the second. -/
structure Extends (d d' : Disk) : Prop where
  workdir : d'.workdir = d.workdir
  entries : ∀ p e, d.at? p = some e → d'.at? p = some e

theorem Extends.trans (d d₁ d' : Disk) (h : Extends d d₁) (h' : Extends d₁ d') : Extends d d' :=
  ⟨h'.workdir.trans h.workdir, fun p e hp => h'.entries p e (h.entries p e hp)⟩

theorem Extends.keeps (d d' : Disk) (h : Extends d d') : Keeps d d' :=
  ⟨h.workdir, fun p => h.entries p _, fun p _ => h.entries p _⟩

theorem Extends.absolute (d d' : Disk) (h : Extends d d') (path : String) :
    d'.absolute path = d.absolute path := by
  rw [Disk.absolute, Disk.absolute, h.workdir]

theorem Extends.readFile (d d' : Disk) (hd : d.WellFormed) (h : Extends d d') (path : String)
    (bytes : ByteArray) (hread : d.readFile path = .ok bytes) : d'.readFile path = .ok bytes := by
  obtain ⟨p, hp⟩ := (readFile_eq_ok_iff d path bytes).mp hread
  obtain ⟨hnull, hp⟩ := (resolve_eq_ok_iff d true path _).mp hp
  have hhere : d'.at? p = some (.file bytes) := h.entries p _ (find_located d hd true path _ hp)
  have hcarried := find_carried d d' (h.keeps d d') true path _ hp
  refine (readFile_eq_ok_iff d' path bytes).mpr ⟨p, (resolve_eq_ok_iff d' true path _).mpr ⟨hnull, ?_⟩⟩
  rw [hcarried (by rw [hhere]; exact nofun), landing, hhere]

end DocNavigation.Disk
