import DocNavigation.Proofs.Disk.Replace

/-!
Replacing files again. Files that were written can be written once more as long as the folders of
their paths are still there: it is the same folders, since replacing a file leaves folders and files
in place and can only put a file where a link was.
-/

namespace DocNavigation.Disk

/-- Folders and files stay what they are, and links stay or give way to files. -/
structure Overwrites (d d' : Disk) : Prop where
  workdir : d'.workdir = d.workdir
  failing : d'.failing = d.failing
  folders : ∀ p, d.at? p = some .folder → d'.at? p = some .folder
  files : ∀ p bytes, d.at? p = some (.file bytes) → ∃ bytes', d'.at? p = some (.file bytes')
  links : ∀ p t, d.at? p = some (.link t) →
    d'.at? p = some (.link t) ∨ ∃ bytes, d'.at? p = some (.file bytes)

theorem Overwrites.refl (d : Disk) : Overwrites d d :=
  ⟨rfl, rfl, fun _ h => h, fun _ bytes h => ⟨bytes, h⟩, fun _ _ h => .inl h⟩

theorem Overwrites.trans (d d₁ d' : Disk) (h : Overwrites d d₁) (h' : Overwrites d₁ d') :
    Overwrites d d' := by
  refine ⟨h'.workdir.trans h.workdir, h'.failing.trans h.failing, ?_, ?_, ?_⟩
  · exact fun p hp => h'.folders p (h.folders p hp)
  · intro p bytes hp
    obtain ⟨bytes₁, hp₁⟩ := h.files p bytes hp
    exact h'.files p bytes₁ hp₁
  · intro p t hp
    rcases h.links p t hp with hp | ⟨bytes, hp⟩
    · exact h'.links p t hp
    · exact .inr (h'.files p bytes hp)

section
variable (d d' : Disk) (h : Overwrites d d')
include h

/-- A path that leads to a folder before and after leads to the same folder. -/
theorem leads_same (links : Nat) (names : List String) (p x x' : Place)
    (hl : d.Leads true links names p (.entry x .folder))
    (hl' : d'.through true links names p = .ok (.entry x' .folder)) : x = x' := by
  generalize hf : Found.entry x .folder = f at hl
  induction hl with
  | arrives links p =>
    rw [through_nil] at hl'
    cases hf
    cases hl'
    rfl
  | here links rest p f _ ih =>
    rw [through_here] at hl'
    exact ih hl' hf
  | up links rest p f _ ih =>
    rw [through_up] at hl'
    exact ih hl' hf
  | down links s rest p f hs hfolder _ ih =>
    rw [through_down d' true links rest p s hs (h.folders _ hfolder)] at hl'
    exact ih hl' hf
  | stops links s p _ hfolder _ => exact absurd (landing_entry d _ x .folder hf.symm) hfolder
  | across links s t rest p f hs hlink hmore _ ih =>
    rcases h.links _ t hlink with hlink' | ⟨bytes, hfile⟩
    · rw [through_across d' true links rest p s hs t hlink' hmore] at hl'
      exact ih hl' hf
    · rw [through, walk, if_neg hs.dot, if_neg hs.dots, if_neg (Nat.not_lt.mpr hs.short), hfile] at hl'
      cases rest <;> cases hl'

theorem find_same (path : String) (x x' : Place) (hf : d.find true path = .ok (.entry x .folder))
    (hf' : d'.find true path = .ok (.entry x' .folder)) : x = x' := by
  obtain ⟨-, -, hl⟩ := (find_eq_ok_iff d true path _).mp hf
  obtain ⟨-, -, hl'⟩ := (find_eq_ok_iff d' true path _).mp hf'
  rw [start, h.workdir, ← start] at hl'
  exact leads_same d d' h maxLinks _ _ x x' hl ((through_eq_ok_iff d' true _ _ _ _).mpr hl')

end

theorem Grown.overwrites (d d' : Disk) (q : Place) (h : Grown d d' q) : Overwrites d d' :=
  ⟨h.workdir, h.failing, fun p => h.kept p _, fun p bytes hp => ⟨bytes, h.kept p _ hp⟩,
    fun p _ hp => .inl (h.kept p _ hp)⟩

theorem Placing.overwrites (d d' : Disk) (q : Place) (bytes : ByteArray) (h : Placing d d' q bytes)
    (hq : d.at? q ≠ some .folder) : Overwrites d d' := by
  refine ⟨h.workdir, h.failing, ?_, ?_, ?_⟩
  · intro p hp
    rw [h.entries, if_neg]
    · exact hp
    · exact fun hpq => hq (hpq ▸ hp)
  · intro p old hp
    rw [h.entries]
    split
    · exact ⟨bytes, rfl⟩
    · exact ⟨old, hp⟩
  · intro p t hp
    rw [h.entries]
    split
    · exact .inr ⟨bytes, rfl⟩
    · exact .inl hp

/-- The path is ready, and there is a file at its place already. -/
structure Settled (d : Disk) (target : String) (q : Place) : Prop where
  ready : ∃ x s, q = x ++ [s] ∧ Ready d target x s
  file : ∃ bytes, d.at? q = some (.file bytes)

theorem Settled.find (d : Disk) (target : String) (q : Place) (h : Settled d target q)
    (bytes : ByteArray) (hq : d.at? q = some (.file bytes)) :
    d.find true target = .ok (.entry q (.file bytes)) := by
  obtain ⟨x, s, rfl, hready⟩ := h.ready
  have hfound := hready.find d target x s d hready.above
  rw [landing, hq] at hfound
  exact find_end d target _ (by simp) hfound

theorem Settled.unique (d : Disk) (target : String) (q r : Place) (h : Settled d target q)
    (h' : Settled d target r) : q = r := by
  obtain ⟨here, hq⟩ := h.file
  obtain ⟨there, hr⟩ := h'.file
  have hfound := h.find d target q here hq
  rw [h'.find d target r there hr] at hfound
  cases hfound
  rfl

theorem Settled.readFile (d : Disk) (target : String) (q : Place) (h : Settled d target q)
    (bytes : ByteArray) (hq : d.at? q = some (.file bytes)) : d.readFile target = .ok bytes := by
  have hfound := h.find d target q bytes hq
  obtain ⟨x, s, -, hready⟩ := h.ready
  rw [Disk.readFile, (resolve_eq_ok_iff d true target _).mpr ⟨hready.noNull, hfound⟩]

/-- A file that was written stays where it is if only its folder can still be reached. -/
theorem Renewed.settled (d d₂ d' d₁ : Disk) (target : String) (bytes : ByteArray) (x : Place)
    (s : String) (h : Renewed d d₂ target bytes d₁ x s) (hlater : Overwrites d₂ d')
    (hfolder : d'.isFolder (Path.folder target) = true) : Settled d' target (x ++ [s]) := by
  have hall := (h.placing.overwrites _ _ _ _ h.ready.noFolder).trans _ _ _ hlater
  have hwritten : d₂.at? (x ++ [s]) = some (.file bytes) := by
    rw [h.placing.entries, if_pos rfl]
  obtain ⟨bytes', hfile⟩ := hlater.files _ _ hwritten
  obtain ⟨x', hx'⟩ := (isFolder_iff d' _).mp hfolder
  obtain ⟨-, hx'⟩ := (resolve_eq_ok_iff d' true _ _).mp hx'
  have hsame := find_same d₁ d' hall _ x x' h.ready.above hx'
  subst hsame
  have hnofolder : d'.at? (x ++ [s]) ≠ some .folder := by
    rw [hfile]
    exact nofun
  exact ⟨⟨x, s, rfl, h.ready.carried d₁ target x s d' hall.failing hx' hnofolder⟩, bytes', hfile⟩

/-- Nothing was taken off the disk, and it does its part as before. What is in the files may have
changed. -/
structure Stands (d d' : Disk) : Prop extends Keeps d d' where
  failing : d'.failing = d.failing
  files : ∀ p bytes, d.at? p = some (.file bytes) → ∃ bytes', d'.at? p = some (.file bytes')

theorem Stands.refl (d : Disk) : Stands d d :=
  ⟨⟨rfl, fun _ h => h, fun _ _ h => h⟩, rfl, fun _ bytes h => ⟨bytes, h⟩⟩

/-- A file that is there can have other bytes. -/
theorem Placing.stands (d d' : Disk) (r : Place) (bytes old : ByteArray)
    (h : Placing d d' r bytes) (hr : d.at? r = some (.file old)) : Stands d d' := by
  have hother : ∀ p e, e ≠ .file old → d.at? p = some e → d'.at? p = some e := by
    intro p e he hp
    rw [h.entries, if_neg]
    · exact hp
    · intro hpr
      rw [hpr, hr] at hp
      exact he (Option.some.inj hp).symm
  refine ⟨⟨h.workdir, ?_, ?_⟩, h.failing, ?_⟩
  · exact fun p => hother p _ nofun
  · exact fun p t => hother p _ nofun
  · intro p here hp
    rw [h.entries]
    split
    · exact ⟨bytes, rfl⟩
    · exact ⟨here, hp⟩

/-- Paths stay settled while nothing is taken off the disk. -/
theorem Settled.stands (d d' : Disk) (target : String) (q : Place) (h : Settled d target q)
    (hstands : Stands d d') : Settled d' target q := by
  obtain ⟨⟨x, s, rfl, hready⟩, here, hfile⟩ := h
  obtain ⟨there, hfile'⟩ := hstands.files _ _ hfile
  have hnofolder : d'.at? (x ++ [s]) ≠ some .folder := by
    rw [hfile']
    exact nofun
  exact ⟨⟨x, s, rfl, hready.carried d target x s d' hstands.failing
    (find_carried d d' hstands.toKeeps true _ _ hready.above) hnofolder⟩, there, hfile'⟩

/-- Files that are replaced one after the other: the disk before, the paths and texts, the paths that
were written and the disk after. -/
inductive Wrote : Disk → List (String × String) → List String → Disk → Prop
  | nil (d : Disk) : Wrote d [] [] d
  | cons (d d₁ d' : Disk) (path text p : String) (files : List (String × String))
      (ps : List String)
      (hrun : ∀ h : Host, h.disk = d →
        (replaceFile path text "utf-8").run h = (.ok p, { h with disk := d₁ }))
      (hrest : Wrote d₁ files ps d') : Wrote d ((path, text) :: files) (p :: ps) d'

/-- What one of the replacements did. -/
theorem replaceFile_one (d d₁ : Disk) (hd : d.WellFormed) (path text p : String)
    (hrun : ∀ h : Host, h.disk = d →
      (replaceFile path text "utf-8").run h = (.ok p, { h with disk := d₁ })) :
    p = d.absolute path ∧ ∃ d₂ x s, Renewed d d₁ p text.toUTF8 d₂ x s := by
  obtain ⟨hp, bytes, d₂, x, s, hbytes, hrenewed, -⟩ :=
    replaceFile_renewed path text "utf-8" p { disk := d } _ hd (hrun { disk := d } rfl)
  rw [encoded_utf8] at hbytes
  cases hbytes
  exact ⟨hp, d₂, x, s, hrenewed⟩

theorem Wrote.run_cons (d' : Disk) (path text p : String) (files : List (String × String))
    (ps : List String) (h h₁ : Host) (hd : h.disk.WellFormed)
    (hrun : (replaceFile path text "utf-8").run h = (.ok p, h₁))
    (hrest : h₁.disk.WellFormed → Wrote h₁.disk files ps d') :
    Wrote h.disk ((path, text) :: files) (p :: ps) d' := by
  obtain ⟨-, _, _, _, _, -, hrenewed, hagain⟩ := replaceFile_renewed _ _ _ _ _ _ hd hrun
  exact .cons h.disk h₁.disk d' path text p files ps hagain (hrest hrenewed.placing.wellFormed)

section
variable {α : Type} (path text : α → String) (as : List α)

theorem wrote_of_mapM (ps : List String) (h h' : Host) (hd : h.disk.WellFormed)
    (hrun : (as.mapM fun a => replaceFile (path a) (text a) "utf-8").run h = (.ok ps, h')) :
    Wrote h.disk (as.map fun a => (path a, text a)) ps h'.disk := by
  induction as generalizing h ps with
  | nil =>
    cases hrun
    exact .nil _
  | cons a as ih =>
    rw [List.mapM_cons, Effect.bind_eq_ok_iff] at hrun
    obtain ⟨p, h₁, hfirst, hrun⟩ := hrun
    rw [Effect.bind_eq_ok_iff] at hrun
    obtain ⟨ps, h₂, hrest, hrun⟩ := hrun
    cases hrun
    exact .run_cons _ _ _ _ _ _ h h₁ hd hfirst fun hd₁ => ih ps h₁ hd₁ hrest

theorem Wrote.run_mapM (ps : List String) (d d' : Disk)
    (hwrote : Wrote d (as.map fun a => (path a, text a)) ps d') (h : Host) (hdisk : h.disk = d) :
    (as.mapM fun a => replaceFile (path a) (text a) "utf-8").run h =
      (.ok ps, { h with disk := d' }) := by
  induction as generalizing d ps h with
  | nil =>
    cases hwrote
    subst hdisk
    rfl
  | cons a as ih =>
    cases hwrote with
    | cons _ d₁ _ _ _ p _ ps hrun hrest =>
      rw [List.mapM_cons, Effect.run_bind, hrun h hdisk]
      simp only
      rw [Effect.run_bind, ih ps d₁ hrest { h with disk := d₁ } rfl]
      rfl

end

theorem Wrote.overwrites (d d' : Disk) (files : List (String × String)) (ps : List String)
    (h : Wrote d files ps d') (hd : d.WellFormed) : d'.WellFormed ∧ Overwrites d d' := by
  induction h with
  | nil d => exact ⟨hd, .refl d⟩
  | cons d d₁ d' path text p files ps hrun _ ih =>
    obtain ⟨-, d₂, x, s, hrenewed⟩ := replaceFile_one d d₁ hd path text p hrun
    obtain ⟨hformed, hrest⟩ := ih hrenewed.placing.wellFormed
    exact ⟨hformed, ((hrenewed.folders.grown.overwrites d d₂ x).trans _ _ _
      (hrenewed.placing.overwrites d₂ d₁ _ _ hrenewed.ready.noFolder)).trans _ _ _ hrest⟩

section
variable (d d' : Disk) (files : List (String × String)) (ps : List String) (h : Wrote d files ps d')
  (hd : d.WellFormed) (hways : ∀ p ∈ ps, d'.isFolder (Path.folder p) = true)
include h hd hways

/-- Where all folders can still be reached, all files are settled. -/
theorem Wrote.settled :
    List.Forall₂ (fun file p => p = d'.absolute file.1 ∧ ∃ q, Settled d' p q) files ps := by
  induction h with
  | nil d => exact .nil
  | cons d d₁ d' path text p files ps hrun hrest ih =>
    rw [List.forall_mem_cons] at hways
    obtain ⟨hp, d₂, x, s, hrenewed⟩ := replaceFile_one d d₁ hd path text p hrun
    obtain ⟨-, hlater⟩ := hrest.overwrites d₁ d' files ps hrenewed.placing.wellFormed
    refine .cons ⟨?_, _, hrenewed.settled d d₁ d' d₂ p _ x s hlater hways.1⟩
      (ih hrenewed.placing.wellFormed hways.2)
    rw [hp, absolute, absolute, hlater.workdir, hrenewed.placing.workdir,
      hrenewed.folders.grown.workdir]

/-- What was written to another place is still there. -/
theorem Wrote.kept (r : Place) (bytes : ByteArray) (hr : d.at? r = some (.file bytes))
    (hother : ∀ p ∈ ps, ¬ Settled d' p r) : d'.at? r = some (.file bytes) := by
  induction h with
  | nil d => exact hr
  | cons d d₁ d' path text p files ps hrun hrest ih =>
    rw [List.forall_mem_cons] at hways hother
    obtain ⟨-, d₂, x, s, hrenewed⟩ := replaceFile_one d d₁ hd path text p hrun
    obtain ⟨-, hlater⟩ := hrest.overwrites d₁ d' files ps hrenewed.placing.wellFormed
    apply ih hrenewed.placing.wellFormed hways.2 _ hother.2
    rw [hrenewed.placing.entries, if_neg]
    · exact hrenewed.folders.grown.kept r _ hr
    · intro hplace
      have hsettled := hrenewed.settled d d₁ d' d₂ p _ x s hlater hways.1
      exact hother.1 (hplace ▸ hsettled)

end

/-- The file that was written first is read back, if nothing was written over it since. -/
theorem Wrote.read_first (d d' : Disk) (path text p : String) (files : List (String × String))
    (ps : List String) (h : Wrote d ((path, text) :: files) (p :: ps) d') (hd : d.WellFormed)
    (hways : ∀ r ∈ p :: ps, d'.isFolder (Path.folder r) = true)
    (hother : ∀ q, Settled d' p q → ∀ r ∈ ps, ¬ Settled d' r q) :
    d'.readFile p = .ok text.toUTF8 := by
  cases h with
  | cons _ d₁ _ _ _ _ _ _ hrun hrest =>
    rw [List.forall_mem_cons] at hways
    obtain ⟨-, d₂, x, s, hrenewed⟩ := replaceFile_one d d₁ hd path text p hrun
    have hd₁ := hrenewed.placing.wellFormed
    obtain ⟨-, hlater⟩ := hrest.overwrites d₁ d' files ps hd₁
    have hsettled := hrenewed.settled d d₁ d' d₂ p _ x s hlater hways.1
    have hwritten : d₁.at? (x ++ [s]) = some (.file text.toUTF8) := by
      rw [hrenewed.placing.entries, if_pos rfl]
    have hkept := hrest.kept d₁ d' files ps hd₁ hways.2 _ _ hwritten (hother _ hsettled)
    exact hsettled.readFile d' p _ _ hkept

/-- Files that are settled can be replaced once more, whatever is written to them. -/
theorem wrote_of_settled (d : Disk) (hd : d.WellFormed) (files : List (String × String))
    (ps : List String)
    (h : List.Forall₂ (fun file p => p = d.absolute file.1 ∧ ∃ q, Settled d p q) files ps) :
    ∃ d', Wrote d files ps d' ∧ (∀ p q, Settled d p q → Settled d' p q) ∧
      ∀ r, (∀ p ∈ ps, ¬ Settled d p r) → d'.at? r = d.at? r := by
  induction files generalizing d ps with
  | nil =>
    cases h
    exact ⟨d, .nil d, fun _ _ hq => hq, fun _ _ => rfl⟩
  | cons file files ih =>
    obtain ⟨path, text⟩ := file
    cases h with
    | @cons _ p _ ps hfirst hrest =>
      obtain ⟨hp, q, hq⟩ := hfirst
      obtain ⟨⟨x, s, rfl, hready⟩, old, hold⟩ := hq
      rw [hp] at hready
      obtain ⟨d₁, hplacing, hrun⟩ := replaceFile_made d d path text "utf-8" _ x s (encoded_utf8 text)
        (hready.makeFolders d _ x s) hd hready
      have hlater : ∀ p q, Settled d p q → Settled d₁ p q :=
        fun p q hq => hq.stands d d₁ p q (hplacing.stands d d₁ _ _ old hold)
      have hrest₁ : List.Forall₂ (fun file p => p = d₁.absolute file.1 ∧ ∃ q, Settled d₁ p q)
          files ps := by
        apply hrest.imp
        intro file p ⟨hp, q, hq⟩
        refine ⟨?_, q, hlater p q hq⟩
        rw [hp, absolute, absolute, hplacing.workdir]
      obtain ⟨d', hwrote, hsettled, hsame⟩ := ih d₁ hplacing.wellFormed ps hrest₁
      refine ⟨d', .cons d d₁ d' path text p files ps ?_ hwrote, ?_, ?_⟩
      · rw [hp]
        exact hrun
      · exact fun p q hq => hsettled p q (hlater p q hq)
      · intro r hr
        rw [List.forall_mem_cons] at hr
        have hother : r ≠ x ++ [s] := by
          intro hplace
          exact hr.1 (hplace ▸ ⟨⟨x, s, rfl, hp ▸ hready⟩, old, hold⟩)
        have hrest' : ∀ p ∈ ps, ¬ Settled d₁ p r := by
          intro p hp hsettled
          obtain ⟨file, -, -, q, hq⟩ := Result.exists_left_of_mem hrest p hp
          have hsame := (hlater p q hq).unique d₁ p q r hsettled
          exact hr.2 p hp (hsame ▸ hq)
        rw [hsame r hrest', hplacing.entries, if_neg hother]

section
variable (d d' : Disk) (path text p : String) (files : List (String × String)) (ps : List String)
  (h : Wrote d ((path, text) :: files) (p :: ps) d') (hd : d.WellFormed)
  (hways : ∀ r ∈ p :: ps, d'.isFolder (Path.folder r) = true)
  (hother : ∀ r ∈ ps, d'.find true r ≠ d'.find true p)

include hother in
/-- Paths that lead to different ends are not settled in one place. -/
theorem settled_apart (q : Place) (hp : Settled d' p q) : ∀ r ∈ ps, ¬ Settled d' r q := by
  intro r hr hsettled
  obtain ⟨bytes, hq⟩ := hp.file
  exact hother r hr ((hsettled.find d' r q bytes hq).trans (hp.find d' p q bytes hq).symm)

include h hd hways hother

/-- What was written once can be written again while nothing is taken off the disk, and the first of
the files has its text both times. -/
theorem Wrote.again (k : Disk) (hk : k.WellFormed) (hstands : Stands d' k) :
    d'.readFile p = .ok text.toUTF8 ∧
      ∃ k', Wrote k ((path, text) :: files) (p :: ps) k' ∧ k'.readFile p = .ok text.toUTF8 := by
  have hsettled := h.settled d d' _ _ hd hways
  have hsettled' : List.Forall₂ (fun file p => p = k.absolute file.1 ∧ ∃ q, Settled k p q)
      ((path, text) :: files) (p :: ps) := by
    apply hsettled.imp
    intro file p ⟨hp, q, hq⟩
    refine ⟨?_, q, hq.stands d' k p q hstands⟩
    rw [hp, absolute, absolute, hstands.workdir]
  obtain ⟨k', hwrote, hkept, -⟩ := wrote_of_settled k hk _ _ hsettled'
  have hcarried : ∀ r ∈ p :: ps, ∃ q, Settled d' r q ∧ Settled k' r q := by
    intro r hr
    obtain ⟨file, -, -, q, hq⟩ := Result.exists_left_of_mem hsettled r hr
    exact ⟨q, hq, hkept r q (hq.stands d' k r q hstands)⟩
  refine ⟨h.read_first d d' path text p files ps hd hways (settled_apart d' p ps hother), k', hwrote,
    hwrote.read_first k k' path text p files ps hk ?_ ?_⟩
  · intro r hr
    obtain ⟨q, -, ⟨x, s, -, hready⟩, -⟩ := hcarried r hr
    exact hready.isFolder k' r x s
  · intro q hq r hr hr'
    obtain ⟨q₁, hbefore, hafter⟩ := hcarried p List.mem_cons_self
    obtain ⟨q₂, hbefore', hafter'⟩ := hcarried r (List.mem_cons_of_mem _ hr)
    have hfirst := hafter.unique k' p q₁ q hq
    have hsecond := hafter'.unique k' r q₂ q hr'
    rw [hfirst] at hbefore
    rw [hsecond] at hbefore'
    exact settled_apart d' p ps hother q hbefore r hr hbefore'

end

/-- Files that are put at places one after the other: the disk before, the paths and texts, the
places and the disk after. -/
inductive PutAt : Disk → List (String × String) → List Place → Disk → Prop
  | nil (d : Disk) : PutAt d [] [] d
  | cons (d d₁ d' : Disk) (path text : String) (files : List (String × String)) (q : Place)
      (qs : List Place) (hput : Replaced d d₁ (d.absolute path) text.toUTF8 q)
      (hrest : PutAt d₁ files qs d') : PutAt d ((path, text) :: files) (q :: qs) d'

theorem PutAt.kept (d d' : Disk) (files : List (String × String)) (qs : List Place)
    (h : PutAt d files qs d') (r : Place) (e : DiskEntry) (hr : d.at? r = some e) (hother : r ∉ qs) :
    d'.at? r = some e := by
  induction h with
  | nil d => exact hr
  | cons d d₁ d' path text files q qs hput _ ih =>
    obtain ⟨hq, hqs⟩ := not_or.mp (mt List.mem_cons.mpr hother)
    exact ih (hput.kept r e hq hr) hqs

/-- Every file that is written has a place. -/
theorem Wrote.putAt (d d' : Disk) (files : List (String × String)) (ps : List String)
    (h : Wrote d files ps d') (hd : d.WellFormed) : ∃ qs, PutAt d files qs d' := by
  induction h with
  | nil d => exact ⟨[], .nil d⟩
  | cons d d₁ d' path text p files ps hrun _ ih =>
    obtain ⟨hp, d₂, x, s, hrenewed⟩ := replaceFile_one d d₁ hd path text p hrun
    have hput := hrenewed.replaced d d₁ d₂ p _ x s hd
    rw [hp] at hput
    obtain ⟨qs, hrest⟩ := ih hrenewed.placing.wellFormed
    exact ⟨_, .cons d d₁ d' path text files _ qs hput hrest⟩

/-- The file that was written first is still there if no other file was put at its place, and it is
found under its path if the folder of the path can still be reached. -/
theorem Wrote.first_put (d d' : Disk) (path text p : String) (files : List (String × String))
    (ps : List String) (h : Wrote d ((path, text) :: files) (p :: ps) d') (hd : d.WellFormed) :
    ∃ q qs, PutAt d ((path, text) :: files) (q :: qs) d' ∧ (q ∉ qs →
      d'.at? q = some (.file text.toUTF8) ∧
      (d'.isFolder (Path.folder p) = true → d'.readFile p = .ok text.toUTF8)) := by
  cases h with
  | cons _ d₁ _ _ _ _ _ _ hrun hrest =>
    obtain ⟨hp, d₂, x, s, hrenewed⟩ := replaceFile_one d d₁ hd path text p hrun
    have hput := hrenewed.replaced d d₁ d₂ p _ x s hd
    rw [hp] at hput
    obtain ⟨qs, hqs⟩ := hrest.putAt d₁ d' files ps hput.wellFormed
    obtain ⟨-, hlater⟩ := hrest.overwrites d₁ d' files ps hput.wellFormed
    refine ⟨x ++ [s], qs, .cons d d₁ d' path text files _ qs hput hqs, fun hother => ?_⟩
    have hkept := hqs.kept d₁ d' files qs _ _ hput.written hother
    refine ⟨hkept, fun hfolder => ?_⟩
    have hsettled := hrenewed.settled d d₁ d' d₂ _ _ x s hlater hfolder
    exact hsettled.readFile d' _ _ _ hkept

end DocNavigation.Disk
