import DocNavigation.Proofs.Disk.Nulls
import DocNavigation.Proofs.Disk.Text
import DocNavigation.Proofs.Host
import DocNavigation.Proofs.Json.Indented
import DocNavigation.Settings.Store

/-!
Settings that were saved and are loaded again. Loading never fails: it gives the usual settings with
the fields of the object in the file over them, or the usual settings alone. What was saved is found
again, but for the version.
-/

namespace DocNavigation

namespace Json

section
variable {α : Type}

/-- The fields with the values that the updates have for their keys, and behind them the updates
that have other keys. -/
def overlay (fields updates : List (String × α)) : List (String × α) :=
  fields.map (fun f => (f.1, (getKey? updates f.1).getD f.2)) ++
    updates.filter fun f => f.1 ∉ fields.map (·.1)

theorem put_of_mem (fields : List (String × α)) (hfields : (fields.map (·.1)).Nodup) (key : String)
    (value : α) (h : key ∈ fields.map (·.1)) :
    put fields key value = fields.map fun f => (f.1, if f.1 = key then value else f.2) := by
  induction fields with
  | nil => exact absurd h List.not_mem_nil
  | cons f fields ih =>
    obtain ⟨k, v⟩ := f
    rw [List.map_cons, List.nodup_cons] at hfields
    by_cases hk : k = key
    · subst hk
      have hrest : ∀ f ∈ fields, (f.1, if f.1 = k then value else f.2) = f := by
        intro f hf
        rw [if_neg]
        rintro rfl
        exact hfields.1 (List.mem_map.mpr ⟨f, hf, rfl⟩)
      simp only [put, if_true, List.map_cons]
      rw [List.map_congr_left hrest, List.map_id']
    · have htail : key ∈ fields.map (·.1) := by
        rcases List.mem_cons.mp h with heq | htail
        · exact absurd heq.symm hk
        · exact htail
      rw [put, if_neg hk, ih hfields.2 htail, List.map_cons, if_neg hk]

theorem putAll_eq_overlay (fields updates : List (String × α)) (hfields : (fields.map (·.1)).Nodup)
    (hupdates : (updates.map (·.1)).Nodup) : putAll fields updates = overlay fields updates := by
  induction updates generalizing fields with
  | nil => simp [putAll, overlay, getKey?]
  | cons u updates ih =>
    obtain ⟨key, value⟩ := u
    rw [List.map_cons, List.nodup_cons] at hupdates
    obtain ⟨hnew, hupdates⟩ := hupdates
    have hnone := (getKey?_eq_none_iff updates key).mpr hnew
    rw [putAll_cons, ih _ (put_nodup fields key value hfields) hupdates]
    unfold overlay
    by_cases hkey : key ∈ fields.map (·.1)
    · -- the field keeps its place and has the new value
      rw [put_of_mem fields hfields key value hkey, List.map_map, List.map_map,
        List.filter_cons_of_neg (by simpa using hkey)]
      congr 1
      apply List.map_congr_left
      intro f _
      simp only [Function.comp, getKey?_cons]
      by_cases hf : f.1 = key
      · rw [hf, hnone]
        simp
      · rw [if_neg hf, if_neg (Ne.symm hf)]
    · -- the field comes last
      rw [put_of_new fields key value hkey, List.map_append, List.map_singleton, hnone,
        List.filter_cons_of_pos (by simpa using hkey), List.append_assoc]
      congr 1
      · apply List.map_congr_left
        intro f hf
        rw [getKey?_cons, if_neg]
        rintro rfl
        exact hkey (List.mem_map_of_mem hf)
      · rw [List.singleton_append]
        congr 1
        apply List.filter_congr
        intro f hf
        have hother : f.1 ≠ key := by
          rintro rfl
          exact hnew (List.mem_map.mpr ⟨f, hf, rfl⟩)
        simp [hother]

/-- A field that is put is gone when its key is left out. -/
theorem filter_put (fields : List (String × α)) (key : String) (value : α) :
    (put fields key value).filter (·.1 ≠ key) = fields.filter (·.1 ≠ key) := by
  induction fields with
  | nil => simp [put]
  | cons f fields ih =>
    obtain ⟨k, v⟩ := f
    rw [put]
    by_cases hk : k = key
    · simp [hk]
    · rw [if_neg hk, List.filter_cons_of_pos (by simpa using hk), ih,
        List.filter_cons_of_pos (by simpa using hk)]

theorem filter_nodup (fields : List (String × α)) (p : String × α → Bool)
    (h : (fields.map (·.1)).Nodup) : ((fields.filter p).map (·.1)).Nodup :=
  h.sublist (List.filter_sublist.map _)

end

end Json

namespace Settings

theorem knownFields_keys (s : Settings) : s.knownFields.map (·.1) = ["source_roots", "output_path",
    "legacy_export_dir", "merge_with", "merge_priority", "extensions", "include_patterns",
    "exclude_patterns", "respect_gitignore", "max_workers", "log_level", "log_file"] := rfl

theorem usual_nodup (workdir : String) : ((usual workdir).toFields.map (·.1)).Nodup := by
  rw [toFields, usual, List.append_nil, knownFields_keys]
  decide

/-- The usual settings with those of a stored object over them. The version is not a setting. -/
def updated (workdir : String) (stored : List (String × Json)) : List (String × Json) :=
  Json.overlay (usual workdir).toFields (stored.filter (·.1 ≠ "version"))

/-- The usual settings, updated by the file at a path if there is an object in it. -/
def loaded (workdir : String) (d : Disk) (path : String) : List (String × Json) :=
  match readValue d path with
  | .ok (.obj stored) => updated workdir stored
  | _ => (usual workdir).toFields

/-- The path of the settings: the given one, or that in the folder of the person's data. -/
def keptAt (path : Option String) (h : Host) : String :=
  (path.filter (· ≠ "")).getD
    (Path.join (h.disk.absolute (userFolderPath h.environment false)) fileName)

section
variable (workdir : String) (d : Disk) (path : String)

/-- What is read from a file: there is one, and the keys of an object in it are distinct. -/
theorem readValue_ok (v : Json) (hread : readValue d path = .ok v) :
    d.isThere path = true ∧ v.Everywhere Json.DistinctKeys := by
  unfold readValue at hread
  split at hread
  · cases hread
  · next text htext =>
    exact ⟨Disk.isThere_of_readText d path text htext,
      Json.keys_of_read text v ((Result.mapError_eq_ok_iff _ _ _).mp hread)⟩

theorem loaded_object (stored : List (String × Json))
    (hread : readValue d path = .ok (.obj stored)) : loaded workdir d path =
      Json.putAll (usual workdir).toFields (stored.filter (·.1 ≠ "version")) := by
  have hkeys := Json.here_of_everywhere _ _ (readValue_ok d path _ hread).2
  rw [loaded, hread, Json.putAll_eq_overlay _ _ (usual_nodup workdir)
    (Json.filter_nodup stored _ hkeys)]
  rfl

theorem loaded_other (hread : ∀ stored, readValue d path ≠ .ok (.obj stored)) :
    loaded workdir d path = (usual workdir).toFields := by
  unfold loaded
  split
  · next stored heq => exact absurd heq (hread stored)
  · rfl

end

/-- The folder of the file is made if it is not there, and then the text can be read back. -/
theorem write_ok (d d' : Disk) (hd : d.WellFormed) (path text : String)
    (h : (write path text).run d = (.ok (), d')) :
    d'.WellFormed ∧ d'.workdir = d.workdir ∧ d'.readFile path = .ok text.toUTF8 := by
  rw [write, Effect.run_bind, Effect.run_get] at h
  simp only at h
  rw [Effect.bind_eq_ok_iff] at h
  obtain ⟨_, d₁, hfolders, hfile⟩ := h
  obtain ⟨hd₁, hgains⟩ := Disk.gains_makeFolders (Path.folder (d.absolute path)) d hd
  rw [hfolders] at hd₁ hgains
  obtain ⟨hd', hworkdir, hread⟩ := Disk.readFile_writeFile d₁ d' hd₁ path text.toUTF8 hfile
  exact ⟨hd', hworkdir.trans hgains.workdir, hread⟩

theorem readText_fileText (config : List (String × Json))
    (hconfig : (Json.obj config).Everywhere Json.Storable) :
    Json.read (fileText config) = .ok (.obj (Json.put config "version" (.str fileVersion))) := by
  obtain ⟨hkeys, hfields⟩ := hconfig
  rw [Json.read_eq_ok_iff]
  apply Json.means_indented
  refine ⟨Json.put_nodup config _ _ hkeys, ?_⟩
  rw [Json.everywhereFields_iff] at hfields ⊢
  intro f hf
  rcases Json.mem_put config _ _ f hf with hf | rfl
  · exact hfields f hf
  · trivial

/-- What was saved is loaded, whatever folders were made since. -/
theorem loaded_saved (workdir : String) (d d' : Disk) (hd : d.WellFormed) (hmore : Disk.Gains d d')
    (path : String) (config : List (String × Json))
    (hconfig : (Json.obj config).Everywhere Json.Storable)
    (hread : d.readFile path = .ok (fileText config).toUTF8) :
    loaded workdir d' path = updated workdir config := by
  have hread' := (hmore.extends d d').readFile d d' hd path _ hread
  have htext := Disk.readText_noReturn d' path (fileText config) (Json.noReturn_indented 4 0 _) hread'
  have hvalue : readValue d' path = .ok (.obj (Json.put config "version" (.str fileVersion))) := by
    rw [readValue, htext]
    simp only
    rw [readText_fileText config hconfig]
    rfl
  rw [loaded, hvalue]
  simp only [updated, Json.filter_put]

/-- Once the path is known, loading looks at it, and writes in the journal at most. -/
theorem run_load_at (path : Option String) (p : String) (h k : Host)
    (hpath : (pathOr path).run h = (.ok p, k)) : ∃ notes, (load path).run h =
      (.ok (loaded h.workdir k.disk p), { k with journal := k.journal ++ notes }) := by
  rw [load, Effect.run_bind, Effect.run_get]
  simp only
  rw [Effect.run_bind, hpath]
  simp only
  rw [Effect.run_bind, Act.run_disk]
  simp only
  cases hvalue : readValue k.disk p with
  | error e =>
    rw [loaded_other _ _ _ (by rw [hvalue]; exact nofun)]
    split
    · exact ⟨[_], rfl⟩
    · exact ⟨[_], rfl⟩
  | ok v =>
    simp only [(readValue_ok _ _ v hvalue).1]
    cases v with
    | obj stored =>
      refine ⟨[], ?_⟩
      rw [List.append_nil, loaded_object _ _ _ stored hvalue]
      rfl
    | _ =>
      rw [loaded_other _ _ _ (by rw [hvalue]; exact nofun)]
      exact ⟨[_], rfl⟩

section
variable (h : Host) (hvars : ∀ v ∈ h.vars, v.2.toList.contains '\x00' = false)
include hvars

theorem userFolderPath_noNull :
    (userFolderPath h.environment false).toList.contains '\x00' = false := by
  refine Path.join_noNull _ _ ?_ (by decide)
  have hhome : ∀ home, h.environment.get? "HOME" = some home →
      home.toList.contains '\x00' = false := by
    intro home hsome
    rw [Environment.get?, Json.getKey?, Option.map_eq_some_iff] at hsome
    obtain ⟨v, hv, rfl⟩ := hsome
    exact hvars v (List.mem_of_find?_eq_some hv)
  have htilde : "~".toList = ['~'] := rfl
  unfold Path.expandHome
  simp only [htilde, List.takeWhile_nil, List.dropWhile_nil, List.append_nil]
  rw [if_pos trivial]
  split
  · decide
  · next home hsome =>
    split
    · decide
    · obtain ⟨rest, hrest⟩ := Path.isPrefix_dropSlashes home.toList
      have hnull := hhome home hsome
      rw [← hrest, List.contains_append, Bool.or_eq_false_iff] at hnull
      rw [String.toList_ofList]
      exact hnull.1

variable (hd : h.disk.WellFormed)
include hd

theorem run_userFolder : ∃ d, (userFolder false).run h =
    (.ok (h.disk.absolute (userFolderPath h.environment false)), { h with disk := d }) ∧
      d.WellFormed ∧ Disk.Gains h.disk d := by
  have hspared := Disk.spared_makeFolders _ (userFolderPath_noNull h hvars) h.disk
  refine ⟨_, ?_, Disk.gains_makeFolders (userFolderPath h.environment false) h.disk hd⟩
  rw [userFolder, Effect.run_bind, Effect.run_get]
  simp only
  rw [Effect.run_bind, Act.run_attempt, Act.run_change]
  generalize (Disk.makeFolders (userFolderPath h.environment false)).run h.disk = made at hspared ⊢
  obtain ⟨r, d⟩ := made
  cases r with
  | ok _ => rfl
  | error e =>
    have hrefusal : Fault.isRefusal (.disk e) = true := by
      simpa [Fault.isRefusal] using fun he => hspared (congrArg _ he)
    simp only [Except.mapError, hrefusal]
    rfl

/-- Only the folder of the person's data is made, and only if no path is given. -/
theorem run_pathOr (path : Option String) : ∃ d, (pathOr path).run h =
    (.ok (keptAt path h), { h with disk := d }) ∧ d.WellFormed ∧ Disk.Gains h.disk d ∧
      (path.filter (· ≠ "") ≠ none → d = h.disk) := by
  unfold pathOr keptAt
  cases path.filter (· ≠ "") with
  | some p => exact ⟨h.disk, rfl, hd, .refl h.disk, fun _ => rfl⟩
  | none =>
    obtain ⟨d, hrun, hformed, hgains⟩ := run_userFolder h hvars hd
    refine ⟨d, ?_, hformed, hgains, fun hgiven => absurd rfl hgiven⟩
    simp only [Option.getD_none]
    rw [usualPath, Effect.run_bind, hrun]
    simp only
    rw [Effect.run_pure]

/-- Loading looks at one path, and writes in the journal at most. -/
theorem run_load (path : Option String) : ∃ d notes,
    (load path).run h = (.ok (loaded h.workdir d (keptAt path h)),
      { h with disk := d, journal := h.journal ++ notes }) ∧
    Disk.Gains h.disk d ∧ (path.filter (· ≠ "") ≠ none → d = h.disk) := by
  obtain ⟨d, hrun, -, hgains⟩ := run_pathOr h hvars hd path
  obtain ⟨notes, hload⟩ := run_load_at path _ h _ hrun
  exact ⟨d, notes, hload, hgains⟩

/-- The file that holds the settings once they are saved. -/
theorem save_ok (path : Option String) (config : List (String × Json)) (h' : Host)
    (hsaved : (save config path).run h = (.ok true, h')) :
    ∃ d notes, h' = { h with disk := d, journal := h.journal ++ notes } ∧ d.WellFormed ∧
      d.workdir = h.disk.workdir ∧
      d.readFile (keptAt path h) = .ok (fileText config).toUTF8 := by
  obtain ⟨d₁, hrun, hd₁, hgains, -⟩ := run_pathOr h hvars hd path
  rw [save, Effect.run_bind, hrun] at hsaved
  simp only at hsaved
  generalize fileText config = text at hsaved ⊢
  generalize keptAt path h = p at hsaved ⊢
  rw [Effect.run_bind, Act.run_attempt, Act.run_change] at hsaved
  have hwritten := fun d => write_ok d₁ d hd₁ p text
  generalize (write p text).run d₁ = made at hsaved hwritten
  obtain ⟨r, d⟩ := made
  cases r with
  | ok _ =>
    obtain ⟨hd, hworkdir, hread⟩ := hwritten d rfl
    exact ⟨d, [_], (congrArg Prod.snd hsaved).symm, hd, hworkdir.trans hgains.workdir, hread⟩
  | error e =>
    simp only [Except.mapError] at hsaved
    split at hsaved
    · cases hsaved
    · cases hsaved

/-- What was saved is there when the settings are loaded next. -/
theorem load_saved (path : Option String) (config : List (String × Json)) (h' : Host)
    (hconfig : (Json.obj config).Everywhere Json.Storable)
    (hsaved : (save config path).run h = (.ok true, h')) :
    ∃ k, (load path).run h' = (.ok (updated h.workdir config), k) := by
  obtain ⟨d, notes, rfl, hd₁, hworkdir, hread⟩ := save_ok h hvars hd path config h' hsaved
  obtain ⟨d', more, hrun, hgains, -⟩ :=
    run_load { h with disk := d, journal := h.journal ++ notes } hvars hd₁ path
  have hsame := loaded_saved h.workdir d d' hd₁ hgains _ config hconfig hread
  have hhost : Host.workdir { h with disk := d, journal := h.journal ++ notes } = h.workdir :=
    congrArg Disk.textOf hworkdir
  have hpath : keptAt path { h with disk := d, journal := h.journal ++ notes } =
      keptAt path h := by
    unfold keptAt Host.environment Disk.absolute
    rw [hhost, hworkdir]
  rw [hhost, hpath, hsame] at hrun
  exact ⟨_, hrun⟩

end

/-- A machine with nothing on its disk but the working folder. -/
def bareHost : Host :=
  { disk := { workdir := ["W"], entries := [(["W"], .folder)] }, vars := [("HOME", "/home/u")] }

def keptConfig : List (String × Json) :=
  [("zeal", .float (.ofDecimal false 15 (-1))), ("output_path", .str "a\nb"), ("version", .int 3),
    ("nest", .obj [("", .arr [.null, .int (-7), .obj []])])]

theorem storable_keptConfig : (Json.obj keptConfig).Everywhere Json.Storable := by
  have hzeal : Json.Storable (.float (.ofDecimal false 15 (-1))) := by
    unfold Json.Storable Json.Means
    decide +kernel
  have hint : ∀ n ∈ [(3 : Int), -7], Json.Storable (.int n) := by
    unfold Json.Storable
    decide +kernel
  have hkeys : (keptConfig.map (·.1)).Nodup := by decide
  refine ⟨hkeys, hzeal, trivial, hint 3 (by decide), ⟨List.nodup_singleton _, ?_⟩, trivial⟩
  exact ⟨⟨trivial, trivial, hint (-7) (by decide), ⟨List.nodup_nil, trivial⟩, trivial⟩, trivial⟩

end Settings

end DocNavigation
