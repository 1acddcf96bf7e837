import DocNavigation.Proofs.Disk.Again
import DocNavigation.Proofs.Disk.Below
import DocNavigation.Proofs.Script.Sidebar
import DocNavigation.Script.Files

/-!
Scripts in files, and exporting them to a fresh folder. The index of the units and the folders of the
units lie side by side there, so that a unit of the name of the index has no folder to go to.
-/

namespace DocNavigation.Script

theorem only_exportTo {γ : Type} {view : Host → γ} (hview : Act.Sees view) (folder : String)
    (r : Registry) : Act.Only view (exportTo folder r) := by
  apply Act.Only.bind _ _ (Disk.only_replaceFile hview _ _ _)
  intro index
  apply Act.Only.bind
  · apply Act.Only.mapM
    exact fun u _ => Disk.only_replaceFile hview _ _ _
  · exact fun sidebars => Act.Only.bind _ _ (Act.only_note hview _) fun _ => Act.only_pure _

/-- The paths and texts of a registry's scripts. -/
def filesOf (folder : String) (r : Registry) : List (String × String) :=
  (Path.join folder fileName, render r) ::
    r.units.map fun u => (sidebarPath folder u.name, Sidebar.render u.catalog)

theorem wrote_of_exportTo (folder : String) (r : Registry) (ps : List String) (h h' : Host)
    (hd : h.disk.WellFormed) (hrun : (exportTo folder r).run h = (.ok ps, h')) :
    Disk.Wrote h.disk (filesOf folder r) ps h'.disk := by
  rw [exportTo, Effect.bind_eq_ok_iff] at hrun
  obtain ⟨p, h₁, hindex, hrun⟩ := hrun
  rw [Effect.bind_eq_ok_iff] at hrun
  obtain ⟨ps, h₂, hsidebars, hrun⟩ := hrun
  cases hrun
  exact .run_cons _ _ _ _ _ _ h h₁ hd hindex fun hd₁ =>
    Disk.wrote_of_mapM _ _ _ ps h₁ h₂ hd₁ hsidebars

theorem run_exportTo (folder : String) (r : Registry) (ps : List String) (d' : Disk) (h : Host)
    (hwrote : Disk.Wrote h.disk (filesOf folder r) ps d') :
    (exportTo folder r).run h = (.ok ps, { h with
      disk := d'
      journal := h.journal ++ [.info s!"Legacy: Exported {r.size} units to {folder}"] }) := by
  cases hwrote with
  | cons _ d₁ _ _ _ p _ ps hrun hrest =>
    rw [exportTo, Effect.run_bind, hrun h rfl]
    simp only
    rw [Effect.run_bind, hrest.run_mapM _ _ _ ps d₁ d' { h with disk := d₁ } rfl]
    rfl

end DocNavigation.Script

namespace DocNavigation.Script

theorem isName_of_isSegment (s : String) (h : Name.isSegment s = true) : Path.IsName s := by
  obtain ⟨hfull, hdot, hdots, hslash, -⟩ := (Name.isSegment_iff s).mp h
  exact ⟨hfull, hdot, hdots, hslash⟩

theorem fileName_index : Disk.FileName fileName :=
  ⟨isName_of_isSegment _ (by decide), by decide, by decide⟩

theorem fileName_sidebar : Disk.FileName Sidebar.fileName :=
  ⟨isName_of_isSegment _ (by decide), by decide, by decide⟩

theorem absolute_sidebar (d : Disk) (folder unit : String) (hunit : Path.IsName unit) :
    d.absolute (sidebarPath folder unit) =
      Path.join (Path.join (d.absolute folder) unit) Sidebar.fileName := by
  rw [sidebarPath, Disk.absolute_join d _ _ fileName_sidebar.isName,
    Disk.absolute_join d folder _ hunit]

/-- The path leads to a folder with room for folders of units. -/
structure Shelf (d : Disk) (folder : String) (q : Place) : Prop where
  full : folder ≠ ""
  writable : Disk.Writable d (d.absolute folder) q
  room : Disk.HasRoom (d.absolute folder)

/-- The second disk has a folder with a script for each of the units besides what the first has. -/
structure Shelved (d d' : Disk) (q : Place) (units : List Component) : Prop where
  wellFormed : d'.WellFormed
  kept : Disk.Extends d d'
  written : ∀ u ∈ units,
    d'.at? (q ++ [u.name] ++ [Sidebar.fileName]) = some (.file (Sidebar.render u.catalog).toUTF8)

section
variable (d : Disk) (folder : String) (q : Place) (h : Shelf d folder q)
include h

theorem Shelf.extends (d' : Disk) (hd : d'.WellFormed) (hfailing : d'.failing = d.failing)
    (hmore : Disk.Extends d d') : Shelf d' folder q := by
  refine ⟨h.full, ?_, ?_⟩
  · rw [hmore.absolute]
    exact h.writable.extends d d' _ q hd hfailing hmore
  · rw [hmore.absolute]
    exact h.room

theorem Shelf.absolute_full : d.absolute folder ≠ "" := by
  obtain ⟨names, hplain⟩ := h.writable.plain
  exact Path.Plain.full _ names hplain

variable (u : Component) (hu : Disk.FileName u.name)
include hu

/-- One unit whose name is free. -/
theorem Shelf.put (hfree : d.at? (q ++ [u.name]) = none) :
    ∃ d', Disk.Furnished d d' q u.name Sidebar.fileName (Sidebar.render u.catalog).toUTF8 ∧
      Shelf d' folder q ∧ ∀ host : Host, host.disk = d →
        (Disk.replaceFile (sidebarPath folder u.name) (Sidebar.render u.catalog) "utf-8").run host =
          (.ok (d.absolute (sidebarPath folder u.name)), { host with disk := d' }) := by
  have hfull := h.absolute_full d folder q
  have hbelow := h.room.join_join _ _ hfull hu
  obtain ⟨d', hfurnished, hrun⟩ := h.writable.furnish d _ q u.name Sidebar.fileName
    (h.room.fits _ _ hfull hu) _ (Sidebar.render u.catalog)
    (absolute_sidebar d folder u.name hu.isName)
    ⟨fileName_sidebar, hbelow _ fileName_sidebar (by decide)⟩
    (hbelow _ Disk.fileName_sampleTemporary (by decide)) hfree
  exact ⟨d', hfurnished,
    h.extends d folder q d' hfurnished.wellFormed hfurnished.failing hfurnished.kept, hrun⟩

/-- One unit whose name is that of a file. -/
theorem Shelf.put_taken (bytes : ByteArray) (htaken : d.at? (q ++ [u.name]) = some (.file bytes))
    (host : Host) (hdisk : host.disk = d) :
    (Disk.replaceFile (sidebarPath folder u.name) (Sidebar.render u.catalog) "utf-8").run host =
      (.error (.disk (.refused .taken (Path.join (d.absolute folder) u.name) none)), host) :=
  h.writable.furnish_taken d _ q u.name Sidebar.fileName
    (h.room.fits _ _ (h.absolute_full d folder q) hu) _ _
    (absolute_sidebar d folder u.name hu.isName) fileName_sidebar.isName bytes htaken host hdisk

end

section
variable (folder : String) (q : Place) (units : List Component)
  (hunits : ∀ u ∈ units, Disk.FileName u.name) (hdistinct : (units.map (·.name)).Nodup)
include hunits hdistinct

/-- All units, if their names are free. -/
theorem Shelf.putAll (d : Disk) (h : Shelf d folder q)
    (hfree : ∀ u ∈ units, d.at? (q ++ [u.name]) = none) :
    ∃ ps d', Disk.Wrote d
      (units.map fun u => (sidebarPath folder u.name, Sidebar.render u.catalog)) ps d' ∧
      Shelved d d' q units := by
  induction units generalizing d with
  | nil => exact ⟨[], d, .nil d, h.writable.wellFormed, ⟨rfl, fun _ _ he => he⟩, nofun⟩
  | cons u us ih =>
    rw [List.forall_mem_cons] at hunits hfree
    rw [List.map_cons, List.nodup_cons] at hdistinct
    obtain ⟨d₁, hfurnished, h₁, hrun⟩ := h.put d folder q u hunits.1 hfree.1
    have hothers : ∀ v ∈ us, d₁.at? (q ++ [v.name]) = none := by
      intro v hv
      rw [hfurnished.others v.name fun heq => hdistinct.1 (heq ▸ List.mem_map_of_mem hv)]
      exact hfree.2 v hv
    obtain ⟨ps, d', hwrote, hshelved⟩ := ih hunits.2 hdistinct.2 d₁ h₁ hothers
    refine ⟨_, d', .cons d d₁ d' _ _ _ _ _ hrun hwrote, hshelved.wellFormed,
      hfurnished.kept.trans _ _ _ hshelved.kept, ?_⟩
    rw [List.forall_mem_cons]
    exact ⟨hshelved.kept.entries _ _ hfurnished.written, hshelved.written⟩

/-- The units up to one that has the name of a file. -/
theorem Shelf.putAll_taken (s : String) (hs : s ∈ units.map (·.name)) (bytes : ByteArray) (d : Disk)
    (h : Shelf d folder q) (htaken : d.at? (q ++ [s]) = some (.file bytes))
    (hfree : ∀ u ∈ units, u.name ≠ s → d.at? (q ++ [u.name]) = none) (host : Host)
    (hdisk : host.disk = d) :
    ∃ host', (units.mapM fun u => Disk.replaceFile (sidebarPath folder u.name)
      (Sidebar.render u.catalog) "utf-8").run host =
        (.error (.disk (.refused .taken (Path.join (d.absolute folder) s) none)), host') := by
  induction units generalizing d host with
  | nil => cases hs
  | cons u us ih =>
    rw [List.forall_mem_cons] at hunits hfree
    rw [List.map_cons, List.nodup_cons] at hdistinct
    rw [List.mapM_cons, Effect.run_bind]
    by_cases hu : u.name = s
    · subst hu
      rw [h.put_taken d folder q u hunits.1 bytes htaken host hdisk]
      exact ⟨host, rfl⟩
    · obtain ⟨d₁, hfurnished, h₁, hrun⟩ := h.put d folder q u hunits.1 (hfree.1 hu)
      have hothers : ∀ v ∈ us, v.name ≠ s → d₁.at? (q ++ [v.name]) = none := by
        intro v hv hvs
        rw [hfurnished.others v.name fun heq => hdistinct.1 (heq ▸ List.mem_map_of_mem hv)]
        exact hfree.2 v hv hvs
      have hlater : s ∈ us.map (·.name) := (List.mem_cons.mp hs).resolve_left (Ne.symm hu)
      obtain ⟨host', hrest⟩ := ih hunits.2 hdistinct.2 hlater d₁ h₁
        (hfurnished.kept.entries _ _ htaken) hothers { host with disk := d₁ } rfl
      rw [hfurnished.kept.absolute] at hrest
      rw [hrun host hdisk]
      simp only
      rw [Effect.run_bind, hrest]
      exact ⟨host', rfl⟩

end

/-- The scripts of a registry are in the folder that the path leads to. -/
structure Exported (d : Disk) (folder : String) (q : Place) (r : Registry) : Prop where
  wellFormed : d.WellFormed
  found : d.resolve true folder = .ok (.entry q .folder)
  room : Disk.HasRoom folder
  index : d.at? (q ++ [fileName]) = some (.file (render r).toUTF8)
  sidebars : ∀ u ∈ r.units,
    d.at? (q ++ [u.name] ++ [Sidebar.fileName]) = some (.file (Sidebar.render u.catalog).toUTF8)

section
variable (d : Disk) (folder : String) (d₁ : Disk) (q : Place) (hfresh : Disk.Fresh d folder d₁ q)
  (hd : d.WellFormed) (r : Registry)
include hfresh hd

/-- The index is the first file in the folder. -/
theorem put_index : ∃ d₂, Disk.Placing d₁ d₂ (q ++ [fileName]) (render r).toUTF8 ∧
    Disk.Extends d₁ d₂ ∧ Shelf d₂ folder q ∧ d₂.absolute folder = d.absolute folder ∧
    ∀ host : Host, host.disk = d →
      (Disk.replaceFile (Path.join folder fileName) (render r) "utf-8").run host =
        (.ok (d.absolute (Path.join folder fileName)), { host with disk := d₂ }) := by
  obtain ⟨x, hgrown, -⟩ := hfresh.grown d folder d₁ q hd
  obtain ⟨d₂, hplacing, hrun⟩ := hfresh.replaceFile d folder d₁ q hd fileName (render r)
    fileName_index
  have hmore : Disk.Extends d₁ d₂ := by
    refine ⟨hplacing.workdir, ?_⟩
    intro p e hp
    rw [hplacing.entries, if_neg]
    · exact hp
    · intro heq
      rw [heq, hfresh.empty] at hp
      cases hp
  have habsolute : d₁.absolute folder = d.absolute folder := by
    rw [Disk.absolute, Disk.absolute, hgrown.workdir]
  have hwritable := hfresh.writable d folder d₁ q hd
  rw [← habsolute] at hwritable
  have hroom := hfresh.absoluteRoom
  rw [← habsolute] at hroom
  have hshelf : Shelf d₁ folder q := ⟨hfresh.full d folder d₁ q, hwritable, hroom⟩
  exact ⟨d₂, hplacing, hmore, hshelf.extends d₁ folder q d₂ hplacing.wellFormed hplacing.failing hmore,
    (hmore.absolute _ _ _).trans habsolute, hrun⟩

variable (hunits : ∀ u ∈ r.units, Disk.FileName u.name) (hdistinct : r.names.Nodup)
include hunits hdistinct

theorem run_exportTo_fresh (hindex : fileName ∉ r.names) :
    ∃ ps d', Exported d' folder q r ∧ ∀ host : Host, host.disk = d → ∃ host', host'.disk = d' ∧
      (exportTo folder r).run host = (.ok ps, host') := by
  obtain ⟨d₂, hplacing, hmore, hshelf, -, hrun⟩ := put_index d folder d₁ q hfresh hd r
  have hfree : ∀ u ∈ r.units, d₂.at? (q ++ [u.name]) = none := by
    intro u hu
    have hother : u.name ≠ fileName := fun heq => hindex (heq ▸ List.mem_map_of_mem hu)
    rw [hplacing.entries, if_neg (by simpa using hother)]
    exact hfresh.empty u.name
  obtain ⟨ps, d', hwrote, hshelved⟩ :=
    Shelf.putAll folder q r.units hunits hdistinct d₂ hshelf hfree
  have hall : Disk.Extends d₁ d' := hmore.trans _ _ _ hshelved.kept
  obtain ⟨hnull, hfound⟩ := (Disk.resolve_eq_ok_iff d₁ true folder _).mp hfresh.found
  have hfound' := Disk.find_carried d₁ d' (hall.keeps d₁ d') true folder _ hfound
  have hwritten : d₂.at? (q ++ [fileName]) = some (.file (render r).toUTF8) := by
    rw [hplacing.entries, if_pos rfl]
  have hexported : Exported d' folder q r :=
    ⟨hshelved.wellFormed, (Disk.resolve_eq_ok_iff d' true folder _).mpr ⟨hnull, hfound'⟩,
      hfresh.room, hshelved.kept.entries _ _ hwritten, hshelved.written⟩
  refine ⟨d.absolute (Path.join folder fileName) :: ps, d', hexported, ?_⟩
  intro host hdisk
  subst hdisk
  exact ⟨_, rfl, run_exportTo folder r _ d' host (.cons _ d₂ _ _ _ _ _ _ hrun hwrote)⟩

/-- A unit of the name of the index has no folder to go to. -/
theorem run_exportTo_taken (hindex : fileName ∈ r.names) (host : Host) (hdisk : host.disk = d) :
    ∃ host', (exportTo folder r).run host =
      (.error (.disk (.refused .taken (d.absolute (Path.join folder fileName)) none)), host') := by
  obtain ⟨d₂, hplacing, -, hshelf, habsolute, hrun⟩ := put_index d folder d₁ q hfresh hd r
  have hwritten : d₂.at? (q ++ [fileName]) = some (.file (render r).toUTF8) := by
    rw [hplacing.entries, if_pos rfl]
  have hfree : ∀ u ∈ r.units, u.name ≠ fileName → d₂.at? (q ++ [u.name]) = none := by
    intro u _ hother
    rw [hplacing.entries, if_neg (by simpa using hother)]
    exact hfresh.empty u.name
  obtain ⟨host', hrest⟩ := Shelf.putAll_taken folder q r.units hunits hdistinct fileName hindex _ d₂
    hshelf hwritten hfree { host with disk := d₂ } rfl
  rw [habsolute, ← Disk.absolute_join d folder _ fileName_index.isName] at hrest
  refine ⟨host', ?_⟩
  rw [exportTo, Effect.run_bind, hrun host hdisk]
  simp only
  rw [Effect.run_bind, hrest]

end

end DocNavigation.Script
