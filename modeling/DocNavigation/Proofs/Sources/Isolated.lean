import DocNavigation.Proofs.Sources.Loaded

/-!
Loading keeps sources apart. Each of them has the outcome that it has on its own, whatever becomes
of the others; only a path that cannot be looked up at all ends the whole loading.
-/

namespace DocNavigation.Sources

/-- Loads each of the sources in the same way. -/
def loadEach (skipping : String) (one : String → Act (Except String Registry))
    (sources : List String) : Act Loaded :=
  return gather (← sources.mapM fun s => isolate s skipping (one s))

theorem load_eq : load = loadEach "Build: Skipping artifact" loadAny := rfl

theorem loadFiles_eq : loadFiles = loadEach "Artifact: Skipping" loadFile := rfl

/-- A way to load a source that changes neither the disk nor the network, and whose failures can be
isolated for all sources that are readable. -/
structure Isolable (Readable : String → Prop) (one : String → Act (Except String Registry)) :
    Prop where
  only : ∀ source, Act.Only Host.world (one source)
  leaves : ∀ source, Act.Leaves Host.world (one source)
  isolated : ∀ source h, Readable source → ∀ e, ((one source).run h).1 = .error e →
    e.isIsolated = true
  stops : ∀ source h, ¬ Readable source → ((one source).run h).1 = .error (.disk .nullByte)

instance : DecidablePred IsReadable :=
  fun _ => inferInstanceAs (Decidable (_ ∨ _))

theorem isolable_loadAny : Isolable IsReadable loadAny where
  only := only_loadAny Act.seesWeb_world
  leaves := leaves_loadAny
  isolated := loadAny_error
  stops source h hreadable := congrArg Prod.fst (loadAny_stops source h hreadable)

/-- A file's path can be looked up. -/
def IsPath (path : String) : Prop :=
  path.toList.contains '\x00' = false

theorem leaves_loadFile (path : String) : Act.Leaves Host.world (loadFile path) := by
  apply Act.Leaves.bind
  · apply Act.Leaves.bind _ _ (Act.leaves_look _)
    intro text
    exact Act.Leaves.bind _ _ (Act.leaves_notes Act.seesWeb_world.toSees _) fun _ =>
      Act.leaves_lift _
  · exact fun r => Act.leaves_pure _

theorem isolable_loadFile : Isolable IsPath loadFile where
  only := only_loadFile Act.seesWeb_world.toSees
  leaves := leaves_loadFile
  isolated path h hpath e herror := by
    rw [run_loadFile] at herror
    cases hread : h.disk.readText path with
    | error f =>
      rw [hread] at herror
      cases herror
      exact readText_error h.disk path e hpath hread
    | ok text =>
      rw [hread] at herror
      cases hdecode : Artifact.decode text (some path) with
      | error m =>
        simp only [hdecode] at herror
        cases herror
        rfl
      | ok r =>
        simp only [hdecode] at herror
        cases herror
  stops path h hpath := by
    rw [IsPath, Bool.not_eq_false] at hpath
    rw [run_loadFile, Disk.readText, Disk.bytes, Disk.readFile, Disk.resolve, if_pos hpath]
    rfl

/-- What one source comes to: a registry, or a failure under its own name. -/
inductive OutcomeOf (source : String) : Loaded → Prop
  | registry (r : Registry) : OutcomeOf source ⟨[r], []⟩
  | failure (message : String) : OutcomeOf source ⟨[], [⟨source, message⟩]⟩

/-- What was loaded is, in order, what each of the sources comes to when it is loaded alone. -/
structure Isolated (run : List String → Act Loaded) (h : Host) (sources : List String)
    (loaded : Loaded) : Prop where
  counted : loaded.registries.length + loaded.failures.length = sources.length
  alone : ∃ outcomes : List Loaded,
    List.Forall₂ (fun source outcome =>
      (∃ k, (run [source]).run h = (.ok outcome, k)) ∧ OutcomeOf source outcome) sources outcomes ∧
    loaded.registries = outcomes.flatMap Loaded.registries ∧
    loaded.failures = outcomes.flatMap Loaded.failures

/-- Sources that are readable are all loaded, each for itself; one that is not ends the loading. -/
structure Isolates (Readable : String → Prop) (run : List String → Act Loaded)
    (sources : List String) (h : Host) : Prop where
  loads : (∀ s ∈ sources, Readable s) →
    ∃ loaded k, (run sources).run h = (.ok loaded, k) ∧ k.world = h.world ∧
      Isolated run h sources loaded
  stops : ¬ (∀ s ∈ sources, Readable s) → ((run sources).run h).1 = .error (.disk .nullByte)

section
variable (outcomes : List (Except SourceFailure Registry))

/-- Gathering takes the outcomes one by one. -/
theorem gather_flatMap :
    (gather outcomes).registries = (outcomes.map fun o => gather [o]).flatMap Loaded.registries ∧
    (gather outcomes).failures = (outcomes.map fun o => gather [o]).flatMap Loaded.failures := by
  induction outcomes with
  | nil => exact ⟨rfl, rfl⟩
  | cons o outcomes ih =>
    rw [List.map_cons, List.flatMap_cons, List.flatMap_cons, ← ih.1, ← ih.2]
    cases o <;> exact ⟨rfl, rfl⟩

theorem gather_length :
    (gather outcomes).registries.length + (gather outcomes).failures.length = outcomes.length := by
  induction outcomes with
  | nil => rfl
  | cons o outcomes ih =>
    cases o with
    | ok r =>
      change (gather outcomes).registries.length + 1 + (gather outcomes).failures.length = _
      rw [List.length_cons]
      omega
    | error f =>
      change (gather outcomes).registries.length + ((gather outcomes).failures.length + 1) = _
      rw [List.length_cons]
      omega

end

section
variable {Readable : String → Prop} {one : String → Act (Except String Registry)}
  (hone : Isolable Readable one) (skipping : String)
include hone

theorem Isolable.run_isolate (source : String) (hreadable : Readable source) (h : Host) :
    ∃ outcome k, (isolate source skipping (one source)).run h = (.ok outcome, k) ∧
      k.world = h.world ∧ OutcomeOf source (gather [outcome]) := by
  obtain ⟨outcome, k, hrun, hworld, -, hfailure⟩ := run_isolate_isolated source h skipping
    (one source) (hone.leaves source) (hone.isolated source h hreadable)
  refine ⟨outcome, k, hrun, hworld, ?_⟩
  cases outcome with
  | ok r => exact .registry r
  | error f =>
    rw [← hfailure f rfl]
    exact .failure f.error

/-- The outcomes are those on the machine as it was before any of the sources was loaded. -/
theorem Isolable.run_each (sources : List String) (hreadable : ∀ s ∈ sources, Readable s)
    (h₀ h : Host) (hworld : h.world = h₀.world) : ∃ outcomes k,
      (sources.mapM fun s => isolate s skipping (one s)).run h = (.ok outcomes, k) ∧
      k.world = h₀.world ∧
      List.Forall₂ (fun s o => (∃ k, (isolate s skipping (one s)).run h₀ = (.ok o, k)) ∧
        OutcomeOf s (gather [o])) sources outcomes := by
  induction sources generalizing h with
  | nil => exact ⟨[], h, rfl, hworld, .nil⟩
  | cons source sources ih =>
    rw [List.forall_mem_cons] at hreadable
    obtain ⟨outcome, h₁, hfirst, hworld₁, hof⟩ :=
      hone.run_isolate skipping source hreadable.1 h
    obtain ⟨outcomes, h₂, hrest, hworld₂, hall⟩ := ih hreadable.2 h₁ (hworld₁.trans hworld)
    have honly := only_isolate Act.seesWeb_world.toSees source skipping (one source)
      (hone.only source) h h₀ hworld
    rw [hfirst] at honly
    rw [List.mapM_cons, Effect.run_bind, hfirst]
    simp only
    rw [Effect.run_bind, hrest]
    exact ⟨outcome :: outcomes, h₂, rfl, hworld₂,
      .cons ⟨Effect.exists_state_of_fst _ _ honly.1.symm, hof⟩ hall⟩

theorem Isolable.run_each_stops (sources : List String)
    (hunreadable : ¬ ∀ s ∈ sources, Readable s) (h : Host) :
    ((sources.mapM fun s => isolate s skipping (one s)).run h).1 = .error (.disk .nullByte) := by
  induction sources generalizing h with
  | nil => exact absurd (fun s hs => absurd hs List.not_mem_nil) hunreadable
  | cons source sources ih =>
    rw [List.mapM_cons, Effect.run_bind]
    by_cases hreadable : Readable source
    · obtain ⟨outcome, h₁, hfirst, -⟩ := hone.run_isolate skipping source hreadable h
      have hrest := ih (fun hall => hunreadable (List.forall_mem_cons.mpr ⟨hreadable, hall⟩)) h₁
      rw [hfirst]
      simp only
      rw [Effect.run_bind]
      generalize (sources.mapM fun s => isolate s skipping (one s)).run h₁ = rest at hrest
      obtain ⟨r, h₂⟩ := rest
      cases hrest
      rfl
    · have hstops := hone.stops source h hreadable
      rw [isolate, Effect.run_bind, Act.run_attempt]
      simp only [hstops]
      rfl

/-- Whatever the way of loading, sources whose failures can be isolated are kept apart. -/
theorem Isolable.isolates (sources : List String) (h : Host) :
    Isolates Readable (loadEach skipping one) sources h where
  loads hreadable := by
    obtain ⟨outcomes, k, hrun, hworld, hall⟩ := hone.run_each skipping sources hreadable h h rfl
    obtain ⟨hregistries, hfailures⟩ := gather_flatMap outcomes
    refine ⟨gather outcomes, k, ?_, hworld, ?_, outcomes.map (fun o => gather [o]), ?_,
      hregistries, hfailures⟩
    · rw [loadEach, Effect.run_bind, hrun]
      rfl
    · rw [gather_length, hall.length_eq]
    · rw [List.forall₂_map_right_iff]
      refine hall.imp fun s o hs => ⟨?_, hs.2⟩
      obtain ⟨k, hk⟩ := hs.1
      refine ⟨k, ?_⟩
      rw [loadEach, Effect.run_bind, List.mapM_cons, Effect.run_bind, hk]
      rfl
  stops hunreadable := by
    have hstops := hone.run_each_stops skipping sources hunreadable h
    rw [loadEach, Effect.run_bind]
    generalize (sources.mapM fun s => isolate s skipping (one s)).run h = all at hstops
    obtain ⟨r, k⟩ := all
    cases hstops
    rfl

end

theorem load_isolates (sources : List String) (h : Host) : Isolates IsReadable load sources h := by
  rw [load_eq]
  exact isolable_loadAny.isolates _ sources h

theorem loadFiles_isolates (paths : List String) (h : Host) :
    Isolates IsPath loadFiles paths h := by
  rw [loadFiles_eq]
  exact isolable_loadFile.isolates _ paths h

/-- For files and addresses, and for files alone: the loading fails if and only if a path has a null
character, and otherwise every source has the outcome that it has alone. -/
theorem loading_isolates (sources : List String) (h : Host) :
    Isolates IsReadable load sources h ∧ Isolates IsPath loadFiles sources h :=
  ⟨load_isolates sources h, loadFiles_isolates sources h⟩

/-- A machine with one artifact, and an address that does not answer in time. -/
def shelf : Host where
  disk := { workdir := [], entries := [(["a"], .file (Artifact.encode {}).toUTF8)] }
  web := ⟨[("https://a", .timeout)]⟩

theorem loading_isolates_shelf : ∃ loaded k,
    (load ["b", "a", "https://a"]).run shelf = (.ok loaded, k) ∧
    Isolated load shelf ["b", "a", "https://a"] loaded ∧
    loaded.registries.length = 1 ∧
    loaded.failures.map SourceFailure.source = ["b", "https://a"] := by
  obtain ⟨loaded, k, hrun, -, hisolated⟩ :=
    (loading_isolates ["b", "a", "https://a"] shelf).1.loads (by decide)
  have hloaded : ((load ["b", "a", "https://a"]).run shelf).1.toOption.map (fun loaded =>
      (loaded.registries.length, loaded.failures.map SourceFailure.source)) =
      some (1, ["b", "https://a"]) := by decide +kernel
  rw [hrun] at hloaded
  obtain ⟨hregistries, hfailures⟩ := Prod.mk.inj (Option.some.inj hloaded)
  exact ⟨loaded, k, hrun, hisolated, hregistries, hfailures⟩

/-- The artifact is there, and nothing is loaded. -/
theorem loading_stopped_null :
    ((load ["a\x00b", "a"]).run shelf).1 = .error (.disk .nullByte) :=
  (load_isolates ["a\x00b", "a"] shelf).stops (by decide)

end DocNavigation.Sources
