import DocNavigation.Proofs.Disk.Below

/-!
Replacing files in a folder, and in folders of it, with no link there to lead out. Whether it goes
well or not, nothing outside the folder is touched.
-/

namespace DocNavigation.Disk

/-- The two disks are the same outside the folder. In it no folder is lost, and no link made. -/
structure Inside (q : Place) (d d' : Disk) : Prop where
  workdir : d'.workdir = d.workdir
  outside : ∀ p, ¬ q <+: p → d'.at? p = d.at? p
  folders : ∀ p, d.at? p = some .folder → d'.at? p = some .folder
  links : ∀ p t, d'.at? p = some (.link t) → d.at? p = some (.link t)

/-- The path leads to a folder in which there are no links, however deep. -/
structure Enclosed (d : Disk) (folder : String) (q : Place) : Prop where
  plain : ∃ names, Path.Plain folder names
  found : d.resolve true folder = .ok (.entry q .folder)
  unlinked : ∀ p t, q <+: p → d.at? p ≠ some (.link t)

section
variable (q : Place)

theorem Inside.refl (d : Disk) : Inside q d d :=
  ⟨rfl, fun _ _ => rfl, fun _ h => h, fun _ _ h => h⟩

theorem Inside.trans (d d₁ d' : Disk) (h : Inside q d d₁) (h' : Inside q d₁ d') : Inside q d d' :=
  ⟨h'.workdir.trans h.workdir, fun p hp => (h'.outside p hp).trans (h.outside p hp),
    fun p hp => h'.folders p (h.folders p hp), fun p t hp => h.links p t (h'.links p t hp)⟩

/-- A change at one place in the folder. -/
theorem inside_one (d d' : Disk) (p : Place) (hq : q <+: p) (hfolder : d.at? p ≠ some .folder)
    (hwork : d'.workdir = d.workdir) (hother : ∀ r, r ≠ p → d'.at? r = d.at? r)
    (hlink : ∀ t, d'.at? p ≠ some (.link t)) : Inside q d d' := by
  refine ⟨hwork, ?_, ?_, ?_⟩
  · intro r hr
    exact hother r fun heq => hr (heq ▸ hq)
  · intro r hr
    rw [hother r fun heq => hfolder (heq ▸ hr)]
    exact hr
  · intro r t hr
    rw [← hother r fun heq => hlink t (heq ▸ hr)]
    exact hr

theorem inside_put (d : Disk) (p : Place) (hp : p ≠ []) (hq : q <+: p)
    (hfolder : d.at? p ≠ some .folder) (e : DiskEntry) (he : ∀ t, e ≠ .link t) :
    Inside q d (d.put p e) := by
  refine inside_one q d (d.put p e) p hq hfolder rfl ?_ ?_
  · intro r hr
    rw [at?_put d p r e hp, if_neg hr]
  · intro t ht
    rw [at?_put d p p e hp, if_pos rfl] at ht
    exact he t (Option.some.inj ht)

theorem inside_erase (d : Disk) (p : Place) (hp : p ≠ []) (hq : q <+: p)
    (hfolder : d.at? p ≠ some .folder) : Inside q d (d.erase p) := by
  refine inside_one q d (d.erase p) p hq hfolder rfl ?_ ?_
  · intro r hr
    rw [at?_erase d p r hp, if_neg hr]
  · intro t ht
    rw [at?_erase d p p hp, if_pos rfl] at ht
    cases ht

end

section
variable (d : Disk) (folder : String) (q : Place) (h : Enclosed d folder q)
include h

theorem Enclosed.find : d.find true folder = .ok (.entry q .folder) :=
  ((resolve_eq_ok_iff d true folder _).mp h.found).2

theorem Enclosed.isFolder : d.isFolder folder = true :=
  (isFolder_iff d folder).mpr ⟨q, h.found⟩

theorem Enclosed.keeps (d' : Disk) (hinside : Inside q d d') : Keeps d d' := by
  refine ⟨hinside.workdir, hinside.folders, ?_⟩
  intro p t hp
  rw [hinside.outside]
  · exact hp
  · exact fun hpq => h.unlinked p t hpq hp

theorem Enclosed.inside (d' : Disk) (hinside : Inside q d d') : Enclosed d' folder q := by
  obtain ⟨hnull, hfound⟩ := (resolve_eq_ok_iff d true folder _).mp h.found
  have hfound' := find_carried d d' (h.keeps d folder q d' hinside) true folder _ hfound
  refine ⟨h.plain, (resolve_eq_ok_iff d' true folder _).mpr ⟨hnull, hfound'⟩, ?_⟩
  exact fun p t hp hlink => h.unlinked p t hp (hinside.links p t hlink)

end

/-- The path leads to a folder in the other one, or to that folder itself. -/
def Reaches (d : Disk) (q : Place) (above : String) : Prop :=
  ∃ x, q <+: x ∧ d.find true above = .ok (.entry x .folder)

/-- A name is looked up in the folder, unless a link of that name is followed. -/
theorem find_name (d : Disk) (atEnd : Bool) (above : String) (names : List String) (s : String)
    (x : Place) (hplain : Path.Plain above names) (hs : Path.IsName s)
    (habove : d.find true above = .ok (.entry x .folder))
    (hlink : (∀ t, d.at? (x ++ [s]) ≠ some (.link t)) ∨ atEnd = false) (f : Found)
    (hf : d.find atEnd (Path.join above s) = .ok f) :
    f = d.landing (x ++ [s]) ∧ s.utf8ByteSize ≤ maxNameLength := by
  have hjoined := Path.join_plain above names s hplain hs
  obtain ⟨y, hy, hend⟩ := find_snoc d atEnd _ names s hjoined f hf
  rw [Path.folder_join above names s hplain hs, habove] at hy
  cases hy
  exact ⟨hend.lands hlink, hend.fits⟩

section
variable (d : Disk) (folder : String) (q : Place) (h : Enclosed d folder q)
include h

theorem Reaches.inside (above : String) (hreaches : Reaches d q above) (d' : Disk)
    (hinside : Inside q d d') : Reaches d' q above := by
  obtain ⟨x, hx, hfound⟩ := hreaches
  exact ⟨x, hx, find_carried d d' (h.keeps d folder q d' hinside) true above _ hfound⟩

theorem Enclosed.makeFolders_self (r : Except DiskError Unit) (d' : Disk)
    (hrun : (Disk.makeFolders folder).run d = (r, d')) :
    Inside q d d' ∧ (r = .ok () → Reaches d' q folder) := by
  obtain ⟨names, hplain⟩ := h.plain
  rw [makeFolders_there d folder names hplain h.isFolder] at hrun
  cases hrun
  exact ⟨.refl q d, fun _ => ⟨q, List.prefix_refl q, h.find⟩⟩

/-- A folder in the folder is there, or it is made there. -/
theorem Enclosed.makeFolders (s : String) (hs : Path.IsName s) (r : Except DiskError Unit)
    (d' : Disk) (hrun : (Disk.makeFolders (Path.join folder s)).run d = (r, d')) :
    Inside q d d' ∧ (r = .ok () → Reaches d' q (Path.join folder s)) := by
  obtain ⟨names, hplain⟩ := h.plain
  have hjoined := Path.join_plain folder names s hplain hs
  have hlast : (Disk.makeFolders (Path.join folder s)).run d =
      (makeLast (Path.join folder s)).run d := by
    apply run_makeFolders_last
    apply not_lacks d _ _ hjoined
    intro _ _ _
    rw [Path.folder_join folder names s hplain hs]
    exact h.isFolder
  rw [hlast] at hrun
  cases r with
  | error e =>
    rw [makeLast_failed d d' _ e hrun]
    exact ⟨.refl q d, nofun⟩
  | ok _ =>
    obtain ⟨-, ⟨p, hp, rfl⟩ | ⟨x, hx, rfl⟩⟩ := makeLast_found d d' _ hrun
    · obtain ⟨hlanding, hname⟩ :=
        find_name d false folder names s q hplain hs h.find (.inr rfl) _ hp
      obtain ⟨rfl, hfree⟩ := landing_vacant d p _ hlanding.symm
      have hne : q ++ [s] ≠ [] := by simp
      have hinside := inside_put q d (q ++ [s]) hne (List.prefix_append q [s]) (by simp [hfree])
        .folder (by simp)
      refine ⟨hinside, fun _ => ⟨q ++ [s], List.prefix_append q [s], ?_⟩⟩
      have hhere := find_into _ folder _ names s hplain hjoined (find_short d false _ _ hp) hname q
        (h.inside d folder q _ hinside).find
      rw [landing, at?_put d _ _ _ hne, if_pos rfl] at hhere
      exact find_end _ _ _ (by simp) hhere
    · refine ⟨.refl q d', fun _ => ⟨q ++ [s], List.prefix_append q [s], ?_⟩⟩
      have hlink := fun t => h.unlinked (q ++ [s]) t (List.prefix_append q [s])
      obtain ⟨hlanding, -⟩ := find_name d' true folder names s q hplain hs h.find (.inl hlink) _ hx
      have hplace := congrArg Found.place hlanding
      rw [landing_place] at hplace
      obtain rfl : x = q ++ [s] := hplace
      exact hx

end

/-- The temporary file is made in the folder, or in the one in it. -/
theorem Reaches.makeTemporary (d : Disk) (q : Place) (above : String) (names : List String)
    (hplain : Path.Plain above names) (hreaches : Reaches d q above) (r : Except DiskError Place)
    (d' : Disk) (hrun : (Disk.makeTemporary above).run d = (r, d')) :
    Inside q d d' ∧ ∀ p, r = .ok p → p ≠ [] ∧ q <+: p ∧ d'.at? p ≠ some .folder := by
  cases r with
  | error e =>
    rw [makeTemporary_failed d d' above e hrun]
    exact ⟨.refl q d, nofun⟩
  | ok p =>
    obtain ⟨-, rfl, f, hf, hp⟩ := makeTemporary_found d d' above p hrun
    obtain ⟨x, hx, habove⟩ := hreaches
    obtain ⟨rfl, -⟩ := find_name d false above names _ x hplain isName_sampleTemporary habove
      (.inr rfl) f ((resolve_eq_ok_iff d false _ f).mp hf).2
    rw [landing_place, List.dropLast_concat] at hp
    have hfree : d.at? p = none := hp ▸ free_temporary d x
    have hne : p ≠ [] := by simp [hp]
    have hq : q <+: p := hp ▸ hx.trans (List.prefix_append x _)
    refine ⟨inside_put q d p hne hq (by simp [hfree]) _ (by simp), ?_⟩
    intro p' hp'
    cases hp'
    refine ⟨hne, hq, ?_⟩
    rw [at?_put d p p _ hne, if_pos rfl]
    simp

/-- While the temporary file is filled and moved: its place is in the folder and has no folder. -/
structure Filling (d₀ : Disk) (q : Place) (above : String) (p : Place) (d : Disk) : Prop where
  inside : Inside q d₀ d
  temporary : d.at? p ≠ some .folder
  reaches : Reaches d q above

section
variable (d₀ : Disk) (folder : String) (q : Place) (h : Enclosed d₀ folder q) (above : String)
  (names : List String) (hplain : Path.Plain above names)
include h

/-- One more change in the folder. -/
theorem Filling.step (p : Place) (d d' : Disk) (hd : Filling d₀ q above p d)
    (hinside : Inside q d d') (htemporary : d'.at? p ≠ some .folder) :
    Filling d₀ q above p d' :=
  ⟨hd.inside.trans q d₀ d d' hinside, htemporary,
    Reaches.inside d folder q (h.inside d₀ folder q d hd.inside) above hd.reaches d' hinside⟩

section
variable (p : Place) (hp : p ≠ []) (hq : q <+: p)
include hp hq

theorem filling_put (bytes : ByteArray) (d : Disk) (hd : Filling d₀ q above p d) :
    Filling d₀ q above p (d.put p (.file bytes)) := by
  refine Filling.step d₀ folder q h above p d _ hd
    (inside_put q d p hp hq hd.temporary _ (by simp)) ?_
  rw [at?_put d p p _ hp, if_pos rfl]
  simp

theorem filling_erase (d : Disk) (hd : Filling d₀ q above p d) :
    Filling d₀ q above p (d.erase p) := by
  refine Filling.step d₀ folder q h above p d _ hd (inside_erase q d p hp hq hd.temporary) ?_
  rw [at?_erase d p p hp, if_pos rfl]
  simp

variable (s : String) (hs : Path.IsName s)
include hplain hs

theorem filling_move (temporary : String) (d : Disk) (hd : Filling d₀ q above p d) :
    Filling d₀ q above p ((moveFile p temporary (Path.join above s)).run d).2 := by
  cases hrun : (moveFile p temporary (Path.join above s)).run d with
  | mk r d' =>
    cases r with
    | error e =>
      rw [moveFile_failed d d' p _ _ e hrun]
      exact hd
    | ok _ =>
      obtain ⟨-, f, e, hf, hnofolder, he, rfl⟩ := moveFile_ok d d' p _ _ hrun
      obtain ⟨x, hx, habove⟩ := hd.reaches
      obtain ⟨rfl, -⟩ := find_name d false above names s x hplain hs habove (.inr rfl) f
        ((resolve_eq_ok_iff d false _ f).mp hf).2
      rw [landing_place]
      have hne : x ++ [s] ≠ [] := by simp
      have hlink : ∀ t, e ≠ .link t := by
        rintro t rfl
        exact h.unlinked p t hq (hd.inside.links p t he)
      have hfree : (d.erase p).at? (x ++ [s]) ≠ some .folder := by
        intro hfolder
        rw [at?_erase d p _ hp] at hfolder
        split at hfolder
        · cases hfolder
        · exact hnofolder (x ++ [s]) (by rw [landing, hfolder])
      have herased := filling_erase d₀ folder q h above p hp hq d hd
      refine Filling.step d₀ folder q h above p _ _ herased
        (inside_put q _ _ hne (hx.trans (List.prefix_append x _)) hfree e hlink) ?_
      rw [at?_put _ _ _ _ hne]
      split
      · rintro heq
        exact hd.temporary (he.trans heq)
      · exact herased.temporary

theorem preserves_fill (temporary text encoding : String) :
    Act.Preserves (Filling d₀ q above p) (fill p temporary (Path.join above s) text encoding) := by
  rw [fill]
  refine Act.Preserves.bind _ _ (Act.preserves_lift _) fun bytes => ?_
  refine Act.Preserves.bind _ _ (Act.preserves_change _ ?_) fun _ =>
    Act.preserves_change _ (filling_move d₀ folder q h above names hplain p hp hq s hs temporary)
  intro d hd
  rw [putFile, Effect.run_bind, run_attempt]
  by_cases hfails : d.failing.contains .write = true
  · rw [if_pos hfails]
    exact hd
  · rw [if_neg hfails]
    exact filling_put d₀ folder q h above p hp hq bytes d hd

end

include hplain in
/-- A path of a name in the folder, or in a folder of it. -/
theorem preserves_replaceFile (s : String) (hs : Path.IsName s) (path text encoding : String)
    (hpath : d₀.absolute path = Path.join above s)
    (hfolders : ∀ d, Enclosed d folder q → ∀ r d', (makeFolders above).run d = (r, d') →
      Inside q d d' ∧ (r = .ok () → Reaches d' q above)) :
    Act.Preserves (Inside q d₀) (replaceFile path text encoding) := by
  intro host hhost
  have habsolute : host.disk.absolute path = Path.join above s := by
    rw [absolute, hhost.workdir]
    exact hpath
  rw [replaceFile, Effect.run_bind, Act.run_disk]
  simp only [habsolute, Path.folder_join above names s hplain hs]
  have hmakes := hfolders host.disk (h.inside d₀ folder q host.disk hhost)
  refine Act.leads_change (K := fun _ d => Inside q d₀ d ∧ Reaches d q above) _ _ host ?_ ?_ ?_
  · intro v d hmade
    obtain ⟨hinside, hreaches⟩ := hmakes _ d hmade
    exact ⟨hhost.trans q d₀ _ d hinside, hreaches rfl⟩
  · intro e d hmade
    exact hhost.trans q d₀ _ d (hmakes _ d hmade).1
  rintro _ k ⟨hk, hreaches⟩
  have htemporary := Reaches.makeTemporary k.disk q above names hplain hreaches
  refine Act.leads_change (K := fun p d => (p ≠ [] ∧ q <+: p) ∧ Filling d₀ q above p d) _ _ k
    ?_ ?_ ?_
  · intro p d hmade
    obtain ⟨hinside, hplace⟩ := htemporary _ d hmade
    obtain ⟨hp, hq, hnofolder⟩ := hplace p rfl
    have hkept := Reaches.inside k.disk folder q (h.inside d₀ folder q k.disk hk) above hreaches d
      hinside
    exact ⟨⟨hp, hq⟩, hk.trans q d₀ _ d hinside, hnofolder, hkept⟩
  · intro e d hmade
    exact hk.trans q d₀ _ d (htemporary _ d hmade).1
  rintro p k ⟨⟨hp, hq⟩, hfilling⟩
  -- the temporary file is removed after a failure, and that is one more change in the folder
  have hfill := preserves_fill d₀ folder q h above names hplain p hp hq s hs
    (Path.join above usualTemporary) text encoding
  have hremove : Act.Preserves (Filling d₀ q above p) (Act.change (removeFile p)) :=
    Act.preserves_change _ (filling_erase d₀ folder q h above p hp hq)
  have hguarded := hfill.tryCatch _ _ fun e => hremove.bind _ _ fun _ => Act.preserves_throw e
  have hall := hguarded.bind _ _ fun _ => Act.preserves_pure (Path.join above s)
  exact (hall k hfilling).inside

end

end DocNavigation.Disk
