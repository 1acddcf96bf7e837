import DocNavigation.Proofs.Settings.Checked

/-!
What a build relies on in a configuration that was checked. Whatever was given, every field is there
and holds what it should, and fields that mean nothing to a build are as they were.
-/

namespace DocNavigation.Settings

/-- What a build relies on in a configuration. -/
structure Ready (config : Json) : Prop where
  output : ∃ path, config.get? "output_path" = some (.str path) ∧ Path.isRooted path = true
  scripts : ∃ path, config.get? "legacy_export_dir" = some (.str path) ∧
    (path = "" ∨ Path.isRooted path = true)
  logLevel : ∃ text, config.get? "log_level" = some (.str text)
  logFile : ∃ text, config.get? "log_file" = some (.str text)
  priority : ∃ rule : Priority, config.get? "merge_priority" = some (.str rule.word)
  respect : ∃ on, config.get? "respect_gitignore" = some (.bool on)
  workers : ∃ count : Nat, config.get? "max_workers" = some (.int count)
  extensions : ∃ texts, config.get? "extensions" = some (.strings texts) ∧ texts.Nodup ∧
    ∀ text ∈ texts, text ≠ "" ∧ Text.startsWith "." text = true
  included : ∃ texts, config.get? "include_patterns" = some (.strings texts) ∧
    ∀ text ∈ texts, text ≠ ""
  excluded : ∃ texts, config.get? "exclude_patterns" = some (.strings texts) ∧
    ∀ text ∈ texts, text ≠ ""
  mergeWith : ∃ texts, config.get? "merge_with" = some (.strings texts) ∧
    ∀ text ∈ texts, text ≠ "" ∧ (Path.isRemote text = true ∨ Path.isRooted text = true)
  roots : ∃ roots : List (String × String),
    config.get? "source_roots" = some (.obj (roots.map fun (name, path) => (name, .str path))) ∧
      (roots.map (·.1)).Nodup ∧
      ∀ root ∈ roots, root.1 ≠ "" ∧ Text.trim root.1 = root.1 ∧ Path.isRooted root.2 = true

/-- Settings with nothing left in them that a check takes out. -/
structure Sound (s : Settings) : Prop where
  output : Path.isRooted s.outputPath = true
  scripts : s.scriptFolder = "" ∨ Path.isRooted s.scriptFolder = true
  extensions : s.extensions.Nodup ∧ ∀ text ∈ s.extensions, Text.startsWith "." text = true
  included : ∀ text ∈ s.included, text ≠ ""
  excluded : ∀ text ∈ s.excluded, text ≠ ""
  mergeWith : ∀ text ∈ s.mergeWith,
    text ≠ "" ∧ (Path.isRemote text = true ∨ Path.isRooted text = true)
  roots : (s.sourceRoots.map (·.1)).Nodup ∧ ∀ root ∈ s.sourceRoots,
    root.1 ≠ "" ∧ Text.trim root.1 = root.1 ∧ Path.isRooted root.2 = true

theorem Sound.ready (s : Settings) (h : Sound s) : Ready s.toJson where
  output := ⟨s.outputPath, rfl, h.output⟩
  scripts := ⟨s.scriptFolder, rfl, h.scripts⟩
  logLevel := ⟨s.logLevel, rfl⟩
  logFile := ⟨s.logFile, rfl⟩
  priority := ⟨s.priority, rfl⟩
  respect := ⟨s.respectIgnored, rfl⟩
  workers := ⟨s.workers, rfl⟩
  extensions := by
    refine ⟨s.extensions, rfl, h.extensions.1, fun text htext => ?_⟩
    have hdot := h.extensions.2 text htext
    refine ⟨fun hnone => ?_, hdot⟩
    rw [hnone] at hdot
    cases hdot
  included := ⟨s.included, rfl, h.included⟩
  excluded := ⟨s.excluded, rfl, h.excluded⟩
  mergeWith := ⟨s.mergeWith, rfl, h.mergeWith⟩
  roots := ⟨s.sourceRoots, rfl, h.roots⟩

theorem eraseDups_nodup (texts : List String) : texts.eraseDups.Nodup := by
  match texts with
  | [] => exact List.nodup_nil
  | text :: texts =>
    rw [List.eraseDups_cons, List.nodup_cons]
    refine ⟨fun hmem => ?_, eraseDups_nodup _⟩
    have hkept := List.mem_eraseDups.mp hmem
    simp at hkept
termination_by texts.length
decreasing_by exact Nat.lt_succ_of_le (List.length_filter_le _ _)

theorem startsWith_withDot (extension : String) :
    Text.startsWith "." (withDot extension) = true := by
  unfold withDot
  split
  case isTrue h => exact h
  case isFalse =>
    rw [Text.startsWith, String.toList_append, List.isPrefixOf_iff_prefix]
    exact List.prefix_append _ _

theorem dotted_sound (extensions : List String) :
    (dotted extensions).Nodup ∧ ∀ text ∈ dotted extensions, Text.startsWith "." text = true := by
  refine ⟨eraseDups_nodup _, fun text htext => ?_⟩
  obtain ⟨extension, -, rfl⟩ := List.mem_map.mp (List.mem_eraseDups.mp htext)
  exact startsWith_withDot extension

theorem get?_toJson (s : Settings) (key : String) :
    s.toJson.get? key = (Json.getKey? s.knownFields key).or (Json.getKey? s.others key) :=
  Json.getKey?_append _ _ key

/-- All settings have the fields of the usual ones. -/
theorem isSome_known (workdir : String) (s : Settings) (key : String) :
    (Json.getKey? s.knownFields key).isSome = ((usual workdir).toJson.get? key).isSome := by
  rw [Bool.eq_iff_iff, Json.isSome_getKey?_iff]
  exact (Json.isSome_getKey?_iff (usual workdir).toFields key).symm

theorem sound_usual (workdir : String) (hwork : Path.isRooted workdir = true) :
    Sound (usual workdir) where
  output := isRooted_usual workdir hwork
  scripts := .inl rfl
  extensions := by
    change usualExtensions.Nodup ∧ ∀ text ∈ usualExtensions, _
    decide
  included := by
    change ∀ text ∈ usualIncluded, text ≠ ""
    decide
  excluded := by
    change ∀ text ∈ usualExcluded, text ≠ ""
    decide
  mergeWith := nofun
  roots := ⟨List.nodup_nil, nofun⟩

section
variable (env : Environment) (strict : Bool)

/-- Texts that are given are trimmed, and blank ones are left out. -/
theorem ensures_checkTexts (P : String → Prop) (field : String) (fallback : List String)
    (v : Option Json) (h : ∀ text ∈ fallback, P text)
    (hgiven : ∀ text, text ≠ "" → Text.trim text = text → P text) :
    (checkTexts strict field fallback v).Ensures fun texts => ∀ text ∈ texts, P text := by
  have hitem : ∀ item, (checkItem strict field item).Ensures fun texts =>
      ∀ text ∈ texts, P text := by
    intro item
    unfold checkItem
    split
    case h_1 s =>
      refine Judging.Ensures.pure _ _ fun text htext => ?_
      split at htext
      case isTrue => cases htext
      case isFalse hfull => exact List.mem_singleton.mp htext ▸ hgiven _ hfull (Text.trim_trim s)
    case h_2 => exact ensures_fault _ _ _ _ nofun
  unfold checkTexts
  split
  · exact Judging.Ensures.pure _ _ h
  · exact Judging.Ensures.pure _ _ h
  · refine Judging.Ensures.pure _ _ fun text htext => ?_
    obtain ⟨hfull, piece, -, rfl⟩ := (Text.mem_commaSeparated _ _).mp htext
    exact hgiven _ hfull (Text.trim_trim piece)
  · refine Judging.Ensures.bind _ _ _ _ (Judging.Ensures.mapM _ _ _ fun item _ => hitem item)
      fun texts htexts => Judging.Ensures.pure _ _ fun text htext => ?_
    obtain ⟨items, hitems, htext⟩ := List.mem_flatten.mp htext
    exact htexts items hitems text htext
  · exact ensures_fault _ _ _ _ h

theorem ensures_fullTexts (field : String) (fallback : List String) (v : Option Json)
    (h : ∀ text ∈ fallback, text ≠ "") :
    (checkTexts strict field fallback v).Ensures fun texts => ∀ text ∈ texts, text ≠ "" :=
  ensures_checkTexts strict (· ≠ "") field fallback v h fun _ hfull _ => hfull

section
variable (hwork : Path.isRooted env.workdir = true)
include hwork

theorem ensures_rooted (text fallback : String) :
    (located env text fallback).Ensures fun path => Path.isRooted path = true := by
  refine Judging.Ensures.mono _ _ _ (ensures_located env text fallback) fun path hpath => ?_
  obtain ⟨given, hgiven⟩ := hpath
  rw [hgiven]
  exact Path.isRooted_absolute env.workdir given hwork

theorem ensures_locatedFolder (text : String) :
    (locatedFolder env text).Ensures fun path => path = "" ∨ Path.isRooted path = true := by
  unfold locatedFolder
  split
  · exact Judging.Ensures.pure _ _ (.inl rfl)
  · exact Judging.Ensures.mono _ _ _ (ensures_rooted env hwork text "") fun _ => .inr

theorem ensures_locatedSource (source : String) (hfull : source ≠ "") :
    (locatedSource env source).Ensures fun text =>
      text ≠ "" ∧ (Path.isRemote text = true ∨ Path.isRooted text = true) := by
  unfold locatedSource
  split
  case isTrue hremote => exact Judging.Ensures.pure _ _ ⟨hfull, .inl hremote⟩
  case isFalse =>
    refine Judging.Ensures.mono _ _ _ (ensures_rooted env hwork source source) fun path hpath => ?_
    refine ⟨fun hnone => ?_, .inr hpath⟩
    rw [hnone] at hpath
    cases hpath

theorem ensures_sound (fields : List (String × Json)) :
    (checkFields env strict fields).Ensures fun s => Sound s ∧
      ∀ key, (usual env.workdir).toJson.get? key = none →
        s.toJson.get? key = Json.getKey? fields key := by
  have husual := sound_usual env.workdir hwork
  unfold checkFields
  -- the types of the first seven fields say all there is to know of them
  iterate 7 refine Judging.Ensures.after _ _ _ fun _ => ?_
  refine Judging.Ensures.after _ _ _ fun extensions => ?_
  refine Judging.Ensures.bind _ _ _ _ (ensures_fullTexts strict _ _ _ husual.included)
    fun included hincluded => ?_
  refine Judging.Ensures.bind _ _ _ _ (ensures_fullTexts strict _ _ _ husual.excluded)
    fun excluded hexcluded => ?_
  refine Judging.Ensures.bind _ _ _ _ (ensures_fullTexts strict _ _ _ nofun)
    fun mergeWith hmergeWith => ?_
  refine Judging.Ensures.bind _ _ _ _ (ensures_checkRoots env strict _) fun roots hroots => ?_
  refine Judging.Ensures.bind _ _ _ _ (ensures_rooted env hwork _ _) fun output houtput => ?_
  refine Judging.Ensures.bind _ _ _ _ (ensures_locatedFolder env hwork _) fun scripts hscripts => ?_
  refine Judging.Ensures.bind _ _ _ _ (Judging.Ensures.mapM _ _ _ fun source hsource =>
    ensures_locatedSource env hwork source (hmergeWith source hsource)) fun sources hsources => ?_
  refine Judging.Ensures.after _ _ _ fun priority => ?_
  refine Judging.Ensures.pure _ _ ⟨?_, fun key hkey => ?_⟩
  · exact {
      output := houtput
      scripts := hscripts
      extensions := dotted_sound extensions
      included := hincluded
      excluded := hexcluded
      mergeWith := hsources
      roots := ⟨hroots.names, fun root hroot => by
        obtain ⟨hfull, htrimmed, path, hpath⟩ := hroots.each root hroot
        exact ⟨hfull, htrimmed, hpath ▸ Path.isRooted_absolute env.workdir path hwork⟩⟩ }
  · have hunknown : ∀ s : Settings, Json.getKey? s.knownFields key = none := by
      intro s
      rw [← Option.not_isSome_iff_eq_none, isSome_known env.workdir, hkey]
      exact nofun
    rw [get?_toJson, hunknown, Option.none_or]
    exact Json.getKey?_filter fields
      (fun key => (Json.getKey? (usual env.workdir).knownFields key).isNone) key (by simp [hunknown])

/-- Whatever a check is given and goes on with, the configuration that comes of it is ready for a build:
it has the fields of the usual one, and its other fields are those that were given. -/
theorem check_ready (config : Json) (s : Settings) (ws : List Warning)
    (h : check env strict config = .ok (s, ws)) :
    Ready s.toJson ∧
      (∀ key, ((usual env.workdir).toJson.get? key).isSome = true →
        (s.toJson.get? key).isSome = true) ∧
      ∀ key, (usual env.workdir).toJson.get? key = none → s.toJson.get? key = config.get? key := by
  have hfields : ∀ key, ((usual env.workdir).toJson.get? key).isSome = true →
      (s.toJson.get? key).isSome = true := by
    intro key hkey
    rw [get?_toJson, Option.isSome_or, isSome_known env.workdir, hkey]
    rfl
  have hother : (∀ key, config.get? key = none) →
      (fault strict (.notObject config.kind) (usual env.workdir)).run [] = .ok (s, ws) →
      Sound s ∧ ∀ key, (usual env.workdir).toJson.get? key = none →
        s.toJson.get? key = config.get? key := by
    intro hnone hrun
    obtain rfl := ensures_fault strict _ _ (· = usual env.workdir) rfl [] s ws hrun
    exact ⟨sound_usual env.workdir hwork, fun key hkey => hkey.trans (hnone key).symm⟩
  have hsound : Sound s ∧ ∀ key, (usual env.workdir).toJson.get? key = none →
      s.toJson.get? key = config.get? key := by
    cases config with
    | obj fields => exact ensures_sound env strict hwork fields [] s ws h
    | _ => exact hother (fun _ => rfl) h
  exact ⟨hsound.1.ready, hfields, hsound.2⟩

end

end

/-- A configuration in need of a check. -/
def untidy : Json :=
  .obj [("theme", .int 1), ("output_path", .str " ../$NAME "), ("max_workers", .str "8"),
    ("extensions", .str "rs, .rs,, py"), ("merge_with", .arr [.str "HTTP://h/a", .str "a/./b", .null]),
    ("source_roots", .obj [(" u ", .str "src"), ("", .str "x")])]

def tidied : Settings where
  sourceRoots := [("u", "/W/src")]
  outputPath := "/nav"
  scriptFolder := ""
  mergeWith := ["HTTP://h/a", "/W/a/b"]
  priority := .lastWins
  extensions := [".rs", ".py"]
  included := usualIncluded
  excluded := usualExcluded
  respectIgnored := true
  workers := 8
  logLevel := "INFO"
  logFile := ""
  others := [("theme", .int 1)]

theorem check_ready_untidy :
    let env : Environment := { workdir := "/W", vars := [("NAME", "nav")] }
    let ws : List Warning := [.textToCount "max_workers" "8",
      .replaced (.itemNotText "merge_with" "NoneType"), .replaced (.root "" (.str "x"))]
    Path.isRooted env.workdir = true ∧ check env false untidy = .ok (tidied, ws) ∧
      Ready tidied.toJson ∧ tidied.toJson.get? "theme" = untidy.get? "theme" := by
  intro env ws
  have hwork : Path.isRooted env.workdir = true := by decide
  have hcheck : check env false untidy = .ok (tidied, ws) := by decide +kernel
  obtain ⟨hready, -, hunknown⟩ := check_ready env false hwork untidy tidied ws hcheck
  exact ⟨hwork, hcheck, hready, hunknown "theme" (by decide)⟩

end DocNavigation.Settings
