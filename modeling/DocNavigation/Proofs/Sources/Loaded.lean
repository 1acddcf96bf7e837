import DocNavigation.Proofs.Artifact.Written
import DocNavigation.Sources

/-!
Loading several artifacts. Files that hold artifacts give their registries in order and leave the
disk alone. Loading any sources changes neither the disk nor the network, and it goes well unless a
source is a path that no file can have.
-/

namespace DocNavigation.Sources

/-- The source is a file that holds an artifact with these units. -/
structure Holds (d : Disk) (source : String) (r : Registry) : Prop where
  isFile : Path.isRemote source = false
  decodes : ∃ text, d.readText source = .ok text ∧ Artifact.decode text (some source) = .ok r

theorem Holds.sound (d : Disk) (source : String) (r : Registry) (h : Holds d source r) : r.Sound := by
  obtain ⟨text, -, hdecode⟩ := h.decodes
  exact Registry.decode_sound text (some source) r hdecode

/-- A file that is still there holds the same artifact. -/
theorem Holds.extends (d d' : Disk) (hd : d.WellFormed) (hkept : Disk.Extends d d')
    (source : String) (r : Registry) (h : Holds d source r) : Holds d' source r := by
  obtain ⟨text, hread, hdecode⟩ := h.decodes
  refine ⟨h.isFile, text, ?_, hdecode⟩
  unfold Disk.readText Disk.bytes at hread ⊢
  cases hbytes : d.readFile source with
  | error e =>
    rw [hbytes] at hread
    cases hread
  | ok bytes =>
    rw [hbytes] at hread
    rw [hkept.readFile d d' hd source bytes hbytes]
    exact hread

theorem run_isolate (source skipping : String) (a : Act (Except String Registry)) (r : Registry)
    (h h₁ : Host) (ha : a.run h = (.ok (.ok r), h₁)) :
    (isolate source skipping a).run h = (.ok (.ok r), h₁) := by
  rw [isolate, Effect.run_bind, Act.run_attempt, ha]
  rfl

theorem run_loadAny (source : String) (r : Registry) (h : Host) (hr : Holds h.disk source r) :
    ∃ h₁, (loadAny source).run h = (.ok (.ok r), h₁) ∧ h₁.disk = h.disk := by
  obtain ⟨text, hread, hdecode⟩ := hr.decodes
  have hload := Artifact.run_load source text r h hread hdecode
  rw [loadAny, if_neg (by rw [hr.isFile]; decide), loadFile, Effect.run_bind, hload]
  exact ⟨_, rfl, rfl⟩

theorem run_each (d : Disk) (sources : List String) (rs : List Registry)
    (hrs : List.Forall₂ (Holds d) sources rs) (h : Host) (hd : h.disk = d) :
    ∃ h₁, (sources.mapM fun s => isolate s "Build: Skipping artifact" (loadAny s)).run h =
      (.ok (rs.map .ok), h₁) ∧ h₁.disk = d := by
  induction hrs generalizing h with
  | nil => exact ⟨h, rfl, hd⟩
  | @cons source r sources rs hr _ ih =>
    rw [← hd] at hr
    obtain ⟨h₁, hload, hd₁⟩ := run_loadAny source r h hr
    obtain ⟨h₂, hrest, hd₂⟩ := ih h₁ (hd₁.trans hd)
    rw [List.mapM_cons, Effect.run_bind, run_isolate _ _ _ r h h₁ hload]
    simp only
    rw [Effect.run_bind, hrest]
    exact ⟨h₂, rfl, hd₂⟩

theorem gather_ok (rs : List Registry) : gather (rs.map .ok) = ⟨rs, []⟩ := by
  induction rs with
  | nil => rfl
  | cons r rs ih =>
    have hcons : gather (.ok r :: rs.map .ok) =
        ⟨r :: (gather (rs.map .ok)).registries, (gather (rs.map .ok)).failures⟩ := rfl
    rw [List.map_cons, hcons, ih]

theorem run_load (sources : List String) (rs : List Registry) (h : Host)
    (hrs : List.Forall₂ (Holds h.disk) sources rs) :
    ∃ h₁, (load sources).run h = (.ok ⟨rs, []⟩, h₁) ∧ h₁.disk = h.disk := by
  obtain ⟨h₁, hall, hd₁⟩ := run_each h.disk sources rs hrs h rfl
  rw [load, Effect.run_bind, hall]
  refine ⟨h₁, ?_, hd₁⟩
  simp only
  rw [gather_ok]
  rfl

section
variable {γ : Type} {view : Host → γ}

theorem only_isolate (hview : Act.Sees view) (source skipping : String)
    (a : Act (Except String Registry)) (ha : Act.Only view a) :
    Act.Only view (isolate source skipping a) := by
  have hfailed : ∀ message : String, Act.Only view (do
      Act.note (.warning s!"{skipping} '{source}': {message}")
      return Except.error ⟨source, message⟩ : Act (Except SourceFailure Registry)) := fun message =>
    Act.Only.bind _ _ (Act.only_note hview _) fun _ => Act.only_pure _
  apply Act.Only.bind _ _ (Act.Only.attempt a ha)
  intro r
  split
  · exact Act.only_pure _
  · exact hfailed _
  · split
    · exact hfailed _
    · exact Act.only_throw _

theorem only_read (hview : Act.Sees view) (text : String) (source : Option String) :
    Act.Only view (Artifact.read text source) :=
  Act.Only.bind _ _ (Act.only_notes hview _) fun _ => Act.only_lift _

theorem only_loadFile (hview : Act.Sees view) (source : String) :
    Act.Only view (loadFile source) := by
  apply Act.Only.bind
  · exact Act.Only.bind _ _ (Act.only_look hview _) fun text => only_read hview text _
  · exact fun r => Act.only_pure _

variable (hview : Act.SeesWeb view)
include hview

theorem only_fetch (url : String) (timeout : Int) : Act.Only view (Web.fetch url timeout) := by
  intro h k heq
  have hweb := hview.web h k heq
  have hrun : ∀ h : Host, (Web.fetch url timeout).run h =
      (.ok (Web.received url timeout (h.web.reply url)).1,
        { h with
          requests := h.requests ++ [⟨url, Web.headers, timeout⟩]
          journal := h.journal ++ .debug s!"Network: Fetching artifact from {url}" ::
            (Web.received url timeout (h.web.reply url)).2 }) := fun h => rfl
  have hrequested := hview.requested h k ⟨url, Web.headers, timeout⟩ heq
  rw [hrun, hrun]
  refine ⟨by rw [hweb], ?_⟩
  exact (hview.noted { h with requests := _ } _).trans
    (hrequested.trans (hview.noted { k with requests := _ } _).symm)

theorem only_loadAny (source : String) : Act.Only view (loadAny source) := by
  unfold loadAny
  split
  · apply Act.Only.bind _ _ (only_fetch hview _ _)
    intro text
    split
    · exact Act.only_pure _
    · exact Act.Only.bind _ _ (only_read hview.toSees _ _) fun r => Act.only_pure _
  · exact only_loadFile hview.toSees source

theorem only_load (sources : List String) : Act.Only view (load sources) := by
  apply Act.Only.bind
  · apply Act.Only.mapM
    exact fun s _ => only_isolate hview.toSees s _ _ (only_loadAny hview s)
  · exact fun outcomes => Act.only_pure _

end

end DocNavigation.Sources

namespace DocNavigation

/-- What loading goes by. -/
def Host.world (h : Host) : Disk × Web :=
  (h.disk, h.web)

theorem Act.seesWeb_world : Act.SeesWeb Host.world where
  disk _ _ heq := congrArg Prod.fst heq
  changed _ _ d heq := congrArg (fun world : Disk × Web => (d, world.2)) heq
  noted _ _ := rfl
  web _ _ heq := congrArg Prod.snd heq
  requested _ _ _ heq := heq

namespace Sources

/-- No path that can be looked up has a null character. -/
def IsReadable (source : String) : Prop :=
  Path.isRemote source = true ∨ source.toList.contains '\x00' = false

/-- What a source gives on this machine, if it can be loaded. -/
def loaded? (h : Host) (source : String) : Option Registry :=
  ((loadAny source).run h).1.toOption.bind Except.toOption

theorem leaves_loadAny (source : String) : Act.Leaves Host.world (loadAny source) := by
  have hread : ∀ text, Act.Leaves Host.world (Artifact.read text (some source)) := fun text =>
    Act.Leaves.bind _ _ (Act.leaves_notes Act.seesWeb_world.toSees _) fun _ => Act.leaves_lift _
  have hfetch : Act.Leaves Host.world (Web.fetch source Web.usualTimeout) := fun _ => rfl
  unfold loadAny
  split
  · apply Act.Leaves.bind _ _ hfetch
    intro text
    split
    · exact Act.leaves_pure _
    · exact Act.Leaves.bind _ _ (hread _) fun r => Act.leaves_pure _
  · apply Act.Leaves.bind
    · exact Act.Leaves.bind _ _ (Act.leaves_look _) hread
    · exact fun r => Act.leaves_pure _

theorem leaves_load (sources : List String) : Act.Leaves Host.world (load sources) := by
  have hnotes := Act.leaves_notes Act.seesWeb_world.toSees
  have hisolate : ∀ source skipping, Act.Leaves Host.world
      (isolate source skipping (loadAny source)) := by
    intro source skipping
    have hfailed : ∀ message : String, Act.Leaves Host.world (do
        Act.note (.warning s!"{skipping} '{source}': {message}")
        return Except.error ⟨source, message⟩ : Act (Except SourceFailure Registry)) :=
      fun message => Act.Leaves.bind _ _ (hnotes [_]) fun _ => Act.leaves_pure _
    apply Act.Leaves.bind _ _ (Act.Leaves.attempt _ (leaves_loadAny source))
    intro r
    split
    · exact Act.leaves_pure _
    · exact hfailed _
    · split
      · exact hfailed _
      · exact Act.leaves_throw _
  apply Act.Leaves.bind _ _ (Act.Leaves.mapM _ _ fun source => hisolate source _)
  exact fun outcomes => Act.leaves_pure _

theorem loaded?_congr (h k : Host) (heq : h.world = k.world) (source : String) :
    loaded? h source = loaded? k source := by
  rw [loaded?, loaded?, (only_loadAny Act.seesWeb_world source h k heq).1]

theorem readFile_error (d : Disk) (path : String) (e : DiskError)
    (hnull : path.toList.contains '\x00' = false) (herror : d.readFile path = .error e) :
    e ≠ .nullByte := by
  rw [Disk.readFile, Disk.resolve, hnull] at herror
  intro he
  subst he
  cases hfind : d.find true path with
  | error r =>
    rw [hfind] at herror
    cases herror
  | ok f =>
    rw [hfind] at herror
    cases f with
    | vacant p => cases herror
    | entry p e => cases e <;> cases herror

theorem readText_error (d : Disk) (path : String) (e : Fault)
    (hnull : path.toList.contains '\x00' = false) (herror : d.readText path = .error e) :
    e.isIsolated = true := by
  rw [Disk.readText, Disk.bytes] at herror
  cases hread : d.readFile path with
  | error f =>
    rw [hread] at herror
    cases herror
    exact decide_eq_true (readFile_error d path f hnull hread)
  | ok bytes =>
    rw [hread] at herror
    simp only [Except.mapError] at herror
    split at herror
    · cases herror
      rfl
    · cases herror

section
variable (source : String) (h : Host)

/-- A text gives what it holds. -/
theorem run_text (text : String) : ((do return Except.ok (← Artifact.read text (some source)) :
    Act (Except String Registry)).run h).1 =
      ((Artifact.decode text (some source)).mapError Fault.malformed).map Except.ok := by
  rw [Effect.run_bind, Artifact.run_read]
  cases Artifact.decode text (some source) <;> rfl

/-- A file gives what its text holds. -/
theorem run_loadFile : ((loadFile source).run h).1 =
    match h.disk.readText source with
    | .error e => .error e
    | .ok text =>
      ((Artifact.decode text (some source)).mapError Fault.malformed).map Except.ok := by
  rw [loadFile, Artifact.load, Effect.run_bind, Effect.run_bind, Act.run_look]
  cases h.disk.readText source with
  | error e => rfl
  | ok text =>
    simp only
    rw [← run_text source h text, Effect.run_bind]

/-- What loading comes to: nothing from the network, no text in the file, or what a text holds. -/
theorem loadAny_cases :
    (∃ message, ((loadAny source).run h).1 = .ok (.error message)) ∨
    (∃ e, ¬ Path.isRemote source = true ∧ h.disk.readText source = .error e ∧
      ((loadAny source).run h).1 = .error e) ∨
    ∃ text, ((loadAny source).run h).1 =
      ((Artifact.decode text (some source)).mapError Fault.malformed).map Except.ok := by
  by_cases hremote : Path.isRemote source = true
  · rw [loadAny, if_pos hremote, Effect.run_bind]
    split
    case h_2 hfetch => cases congrArg Prod.fst hfetch
    case h_1 text k _ =>
      cases text with
      | none => exact .inl ⟨_, rfl⟩
      | some text => exact .inr (.inr ⟨text, run_text source k text⟩)
  · have hfile := run_loadFile source h
    rw [show ((loadAny source).run h).1 = ((loadFile source).run h).1 by
      rw [loadAny, if_neg hremote], hfile]
    cases htext : h.disk.readText source with
    | error e => exact .inr (.inl ⟨e, hremote, rfl, rfl⟩)
    | ok text => exact .inr (.inr ⟨text, rfl⟩)

/-- Sources that cannot be loaded leave the others alone. -/
theorem loadAny_error (hreadable : IsReadable source) (e : Fault)
    (herror : ((loadAny source).run h).1 = .error e) : e.isIsolated = true := by
  rcases loadAny_cases source h with ⟨message, hrun⟩ | ⟨f, hremote, htext, hrun⟩ | ⟨text, hrun⟩
  · rw [hrun] at herror
    cases herror
  · rw [hrun] at herror
    cases herror
    exact readText_error h.disk source e (hreadable.resolve_left hremote) htext
  · rw [hrun] at herror
    cases hdecode : Artifact.decode text (some source) with
    | ok r =>
      rw [hdecode] at herror
      cases herror
    | error m =>
      rw [hdecode] at herror
      cases herror
      rfl

/-- Other paths stop the loading. -/
theorem loadAny_stops (hreadable : ¬ IsReadable source) :
    (loadAny source).run h = (.error (.disk .nullByte), h) := by
  obtain ⟨hremote, hnull⟩ := not_or.mp hreadable
  rw [Bool.not_eq_false] at hnull
  have hread : h.disk.readText source = .error (.disk .nullByte) := by
    rw [Disk.readText, Disk.bytes, Disk.readFile, Disk.resolve, if_pos hnull]
    rfl
  rw [loadAny, if_neg hremote, loadFile, Artifact.load, Effect.run_bind, Effect.run_bind,
    Act.run_look, hread]

variable (skipping : String)

/-- The outcome where no fault stops the loading: a failure has the source's own name. -/
theorem run_isolate_isolated (a : Act (Except String Registry)) (hleaves : Act.Leaves Host.world a)
    (hisolated : ∀ e, (a.run h).1 = .error e → e.isIsolated = true) : ∃ outcome h₁,
    (isolate source skipping a).run h = (.ok outcome, h₁) ∧ h₁.world = h.world ∧
      outcome.toOption = (a.run h).1.toOption.bind Except.toOption ∧
      ∀ f, outcome = .error f → f.source = source := by
  have hworld := hleaves h
  rw [isolate, Effect.run_bind, Act.run_attempt]
  cases hrun : a.run h with
  | mk r h₁ =>
    rw [hrun] at hworld hisolated
    cases r with
    | ok loaded =>
      cases loaded with
      | ok r => exact ⟨_, _, rfl, hworld, rfl, fun f hf => by cases hf⟩
      | error message => exact ⟨_, _, rfl, hworld, rfl, fun f hf => Except.error.inj hf ▸ rfl⟩
    | error e =>
      simp only [hisolated e rfl, if_true]
      exact ⟨_, _, rfl, hworld, rfl, fun f hf => Except.error.inj hf ▸ rfl⟩

/-- The outcome of a source that can be read. -/
theorem run_isolate_readable (hreadable : IsReadable source) : ∃ outcome h₁,
    (isolate source skipping (loadAny source)).run h = (.ok outcome, h₁) ∧ h₁.world = h.world ∧
      outcome.toOption = loaded? h source := by
  obtain ⟨outcome, h₁, hrun, hworld, hloaded, -⟩ := run_isolate_isolated source h skipping
    (loadAny source) (leaves_loadAny source) (loadAny_error source h hreadable)
  exact ⟨outcome, h₁, hrun, hworld, hloaded⟩

theorem readable_of_isolate (outcome : Except SourceFailure Registry) (h₁ : Host)
    (hrun : (isolate source skipping (loadAny source)).run h = (.ok outcome, h₁)) :
    IsReadable source := by
  by_contra hreadable
  rw [isolate, Effect.run_bind, Act.run_attempt, loadAny_stops source h hreadable] at hrun
  cases hrun

end

theorem run_each_readable (sources : List String) (hreadable : ∀ s ∈ sources, IsReadable s)
    (h : Host) : ∃ outcomes h₁,
      (sources.mapM fun s => isolate s "Build: Skipping artifact" (loadAny s)).run h =
        (.ok outcomes, h₁) ∧ h₁.world = h.world ∧
      outcomes.filterMap Except.toOption = sources.filterMap (loaded? h) := by
  induction sources generalizing h with
  | nil => exact ⟨[], h, rfl, rfl, rfl⟩
  | cons source sources ih =>
    rw [List.forall_mem_cons] at hreadable
    obtain ⟨outcome, h₁, hfirst, hworld, hloaded⟩ :=
      run_isolate_readable source h "Build: Skipping artifact" hreadable.1
    obtain ⟨outcomes, h₂, hrest, hworld', hall⟩ := ih hreadable.2 h₁
    rw [List.mapM_cons, Effect.run_bind, hfirst]
    simp only
    rw [Effect.run_bind, hrest]
    refine ⟨outcome :: outcomes, h₂, rfl, hworld'.trans hworld, ?_⟩
    have hsame : sources.filterMap (loaded? h₁) = sources.filterMap (loaded? h) :=
      List.filterMap_congr fun s _ => loaded?_congr h₁ h hworld s
    rw [List.filterMap_cons, List.filterMap_cons, hloaded, hall, hsame]

theorem registries_gather (outcomes : List (Except SourceFailure Registry)) :
    (gather outcomes).registries = outcomes.filterMap Except.toOption := by
  refine List.filterMap_congr fun outcome _ => ?_
  cases outcome <;> rfl

/-- Loading gives what each of the sources gives on the machine. -/
theorem run_load_readable (sources : List String) (hreadable : ∀ s ∈ sources, IsReadable s)
    (h : Host) : ∃ loaded h₁, (load sources).run h = (.ok loaded, h₁) ∧ h₁.world = h.world ∧
      loaded.registries = sources.filterMap (loaded? h) := by
  obtain ⟨outcomes, h₁, hall, hworld, hloaded⟩ := run_each_readable sources hreadable h
  rw [load, Effect.run_bind, hall]
  exact ⟨gather outcomes, h₁, rfl, hworld, (registries_gather outcomes).trans hloaded⟩

theorem readable_of_load (sources : List String) (h h₁ : Host) (loaded : Loaded)
    (hrun : (load sources).run h = (.ok loaded, h₁)) : ∀ s ∈ sources, IsReadable s := by
  obtain ⟨outcomes, _, hall, -⟩ := (Effect.bind_eq_ok_iff _ _ _ _ _).mp hrun
  have heach := Effect.mapM_ok _ (fun s _ => IsReadable s) sources
    (fun s _ k o k₁ hone => readable_of_isolate s k _ o k₁ hone) outcomes h _ hall
  intro s hs
  obtain ⟨i, hi, rfl⟩ := List.mem_iff_getElem.mp hs
  exact List.Forall₂.get heach hi (heach.length_eq ▸ hi)

theorem loaded?_sound (h : Host) (source : String) (r : Registry)
    (hloaded : loaded? h source = some r) : r.Sound := by
  rw [loaded?] at hloaded
  rcases loadAny_cases source h with ⟨message, hrun⟩ | ⟨f, -, -, hrun⟩ | ⟨text, hrun⟩
  · rw [hrun] at hloaded
    cases hloaded
  · rw [hrun] at hloaded
    cases hloaded
  · rw [hrun] at hloaded
    cases hdecode : Artifact.decode text (some source) with
    | error m =>
      rw [hdecode] at hloaded
      cases hloaded
    | ok s =>
      rw [hdecode] at hloaded
      cases hloaded
      exact Registry.decode_sound text _ r hdecode

theorem load_sound (sources : List String) (h h₁ : Host) (loaded : Loaded)
    (hrun : (load sources).run h = (.ok loaded, h₁)) : ∀ r ∈ loaded.registries, r.Sound := by
  obtain ⟨loaded', h₂, hload, -, hregistries⟩ :=
    run_load_readable sources (readable_of_load sources h h₁ loaded hrun) h
  rw [hrun] at hload
  cases hload
  intro r hr
  rw [hregistries] at hr
  obtain ⟨source, -, hloaded⟩ := List.mem_filterMap.mp hr
  exact loaded?_sound h source r hloaded

end Sources

end DocNavigation
