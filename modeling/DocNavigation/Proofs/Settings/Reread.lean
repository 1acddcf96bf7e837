import DocNavigation.Proofs.Path.Below
import DocNavigation.Proofs.Settings.Lenient
import DocNavigation.Proofs.Settings.Ready
import DocNavigation.Proofs.Settings.Stored

/-!
Checking once more what was checked. A second check warns of nothing and changes nothing but paths:
each of them is trimmed and expanded again, so that the settings stay as they are where no path ends
in white space or names a variable that is set.
-/

namespace DocNavigation

namespace Judging

/-- The check gives this value and warns of nothing. -/
def Gives {α : Type} (x : Judging α) (a : α) : Prop :=
  ∀ before, x.run before = .ok (a, before)

section
variable {α β : Type}

theorem Gives.pure (a : α) : Gives (Pure.pure a : Judging α) a := fun _ => rfl

theorem Gives.bind (x : Judging α) (f : α → Judging β) (a : α) (b : β) (hx : x.Gives a)
    (hf : (f a).Gives b) : (x >>= f).Gives b := by
  intro before
  rw [StateT.run_bind, hx before]
  exact hf before

theorem Gives.mapM (f : α → Judging β) (g : α → β) (as : List α)
    (hf : ∀ a ∈ as, (f a).Gives (g a)) : (as.mapM f).Gives (as.map g) := by
  induction as with
  | nil => exact .pure []
  | cons a as ih =>
    rw [List.forall_mem_cons] at hf
    rw [List.mapM_cons]
    exact .bind _ _ _ _ hf.1 (.bind _ _ _ _ (ih hf.2) (.pure _))

end

end Judging

namespace Json

section
variable {α : Type}

/-- Fields with the same keys take the place of all the values. -/
theorem overlay_same (fields known more : List (String × α))
    (hkeys : known.map (·.1) = fields.map (·.1)) (hnodup : (known.map (·.1)).Nodup)
    (hmore : ∀ f ∈ more, f.1 ∉ known.map (·.1)) : overlay fields (known ++ more) = known ++ more := by
  have hlength : fields.length = known.length := by
    simpa using (congrArg List.length hkeys).symm
  have hvalue : ∀ f ∈ known, getKey? (known ++ more) f.1 = some f.2 := by
    intro f hf
    rw [getKey?_append, (getKey?_eq_some_iff known hnodup f.1 f.2).mpr hf, Option.some_or]
  rw [overlay, ← hkeys, List.filter_append, List.filter_eq_nil_iff.mpr, List.nil_append,
    List.filter_eq_self.mpr]
  · congr 1
    apply List.ext_getElem (by simpa using hlength)
    intro i hi hi'
    have hbound : i < fields.length := by omega
    have hkey : known[i].1 = fields[i].1 := by
      have hget := List.getElem_of_eq hkeys (i := i) (by simpa using hi')
      simpa using hget
    rw [List.getElem_map, ← hkey, hvalue _ (List.getElem_mem hi')]
    rfl
  · intro f hf
    simpa using hmore f hf
  · intro f hf
    simpa using ⟨f.2, hf⟩

end

end Json

namespace Path

/-- The path that the text of a path stands for. -/
def reread (env : Environment) (path : String) : String :=
  absolute env.workdir (expand env (Text.trim path))

theorem isRooted_trim (path : String) (h : isRooted path = true) :
    isRooted (Text.trim path) = true := by
  obtain ⟨cs, hcs⟩ := (isRooted_iff path).mp h
  exact (isRooted_iff _).mpr (Text.head_trim path '/' cs hcs (by decide))

theorem full_of_isRooted (path : String) (h : isRooted path = true) : path ≠ "" := by
  rintro rfl
  cases h

/-- Paths in normal form stay as they are, unless they end in white space or name a variable. -/
theorem reread_eq (env : Environment) (path : String) (hrooted : isRooted path = true)
    (hnormal : normal path = path) (htrim : Text.trim path = path)
    (hexpand : expand env path = path) : reread env path = path := by
  rw [reread, htrim, hexpand, absolute, if_pos hrooted, hnormal]

end Path

namespace Settings

open Judging

/-- The paths among the settings. -/
def paths (s : Settings) : List String :=
  s.sourceRoots.map (·.2) ++ s.outputPath :: (if s.scriptFolder = "" then [] else [s.scriptFolder])
    ++ s.mergeWith.filter fun source => !Path.isRemote source

/-- The settings with other paths. -/
def mapPaths (f : String → String) (s : Settings) : Settings :=
  { s with
    sourceRoots := s.sourceRoots.map fun root => (root.1, f root.2)
    outputPath := f s.outputPath
    scriptFolder := if s.scriptFolder = "" then "" else f s.scriptFolder
    mergeWith := s.mergeWith.map fun source => if Path.isRemote source then source else f source }

/-- The settings with every path read once more. -/
def reread (env : Environment) (s : Settings) : Settings :=
  s.mapPaths (Path.reread env)

theorem mem_paths_iff (s : Settings) (path : String) : path ∈ s.paths ↔
    (∃ name, (name, path) ∈ s.sourceRoots) ∨ path = s.outputPath ∨
      (s.scriptFolder ≠ "" ∧ path = s.scriptFolder) ∨
      (path ∈ s.mergeWith ∧ Path.isRemote path = false) := by
  by_cases hscripts : s.scriptFolder = "" <;> simp [paths, hscripts]

theorem map_eq_self_iff {α : Type} (f : α → α) (as : List α) :
    as.map f = as ↔ ∀ a ∈ as, f a = a := by
  have hmap := List.map_inj_left (l := as) (f := f) (g := id)
  rw [List.map_id] at hmap
  exact hmap

/-- The settings stay as they are just in case the paths do. -/
theorem mapPaths_eq_iff (f : String → String) (s : Settings) :
    s.mapPaths f = s ↔ ∀ path ∈ s.paths, f path = path := by
  have hparts : s.mapPaths f = s ↔
      s.sourceRoots.map (fun root => (root.1, f root.2)) = s.sourceRoots ∧
      f s.outputPath = s.outputPath ∧
      (if s.scriptFolder = "" then "" else f s.scriptFolder) = s.scriptFolder ∧
      s.mergeWith.map (fun source => if Path.isRemote source then source else f source) =
        s.mergeWith := by
    cases s
    simp only [mapPaths, mk.injEq, and_true]
  have hroots : s.sourceRoots.map (fun root => (root.1, f root.2)) = s.sourceRoots ↔
      ∀ path, (∃ name, (name, path) ∈ s.sourceRoots) → f path = path := by
    rw [map_eq_self_iff]
    constructor
    · rintro h path ⟨name, hmem⟩
      exact congrArg Prod.snd (h _ hmem)
    · rintro h ⟨name, path⟩ hmem
      exact congrArg (Prod.mk name) (h path ⟨name, hmem⟩)
  have hscripts : (if s.scriptFolder = "" then "" else f s.scriptFolder) = s.scriptFolder ↔
      (s.scriptFolder ≠ "" → f s.scriptFolder = s.scriptFolder) := by
    by_cases hnone : s.scriptFolder = "" <;> simp [hnone]
  have hsources : s.mergeWith.map (fun source => if Path.isRemote source then source else f source) =
      s.mergeWith ↔ ∀ path ∈ s.mergeWith, Path.isRemote path = false → f path = path := by
    rw [map_eq_self_iff]
    refine forall₂_congr fun path _ => ?_
    cases hremote : Path.isRemote path <;> simp
  rw [hparts, hroots, hscripts, hsources]
  simp only [mem_paths_iff, or_imp, forall_and, and_imp, forall_eq]
  refine and_congr_right fun _ => and_congr_right fun _ => and_congr_left fun _ => ?_
  exact ⟨fun h path hfull heq => heq ▸ h hfull, fun h hfull => h _ hfull rfl⟩

/-- Settings that a check has been through: nothing is left to trim but paths. -/
structure Tidy (s : Settings) : Prop extends Sound s where
  logLevel : Text.trim s.logLevel = s.logLevel
  logFile : Text.trim s.logFile = s.logFile
  texts : ∀ text ∈ s.extensions ++ (s.included ++ s.excluded), Text.trim text = text
  sources : ∀ source ∈ s.mergeWith, Path.isRemote source = true → Text.trim source = source
  normal : ∀ path ∈ s.paths, Path.normal path = path
  others : ∀ f ∈ s.others, f.1 ∉ s.knownFields.map (·.1)

theorem Tidy.rooted (s : Settings) (h : Tidy s) (path : String) (hpath : path ∈ s.paths) :
    Path.isRooted path = true := by
  rcases (mem_paths_iff s path).mp hpath with ⟨name, hroot⟩ | rfl | ⟨hfull, rfl⟩ | ⟨hsource, hlocal⟩
  · exact (h.roots.2 _ hroot).2.2
  · exact h.output
  · exact h.scripts.resolve_left hfull
  · exact (h.mergeWith path hsource).2.resolve_left (by simp [hlocal])

/-- Fields that mean nothing to a build can be left out. -/
theorem Tidy.without (s : Settings) (h : Tidy s) (p : String × Json → Bool) :
    Tidy { s with others := s.others.filter p } :=
  { h with others := fun f hf => h.others f (List.mem_filter.mp hf).1 }

theorem eraseDups_of_nodup (texts : List String) (h : texts.Nodup) : texts.eraseDups = texts := by
  induction texts with
  | nil => rfl
  | cons text texts ih =>
    rw [List.nodup_cons] at h
    have hrest : texts.filter (fun other => !other == text) = texts := by
      rw [List.filter_eq_self]
      intro other hother
      have hne : other ≠ text := fun heq => h.1 (heq ▸ hother)
      simpa using hne
    rw [List.eraseDups_cons, hrest, ih h.2]

/-- Extensions with their dots stay as they are. -/
theorem dotted_eq (texts : List String) (hnodup : texts.Nodup)
    (h : ∀ text ∈ texts, Text.startsWith "." text = true) : dotted texts = texts := by
  have hmap : texts.map withDot = texts := by
    rw [map_eq_self_iff]
    intro text htext
    rw [withDot, if_pos (h text htext)]
  rw [dotted, hmap, eraseDups_of_nodup texts hnodup]

/-- Checked settings can be saved and read again, if the number and the other fields can. -/
theorem storable_toJson (s : Settings) (h : Tidy s) (hworkers : Json.Storable (.int s.workers))
    (hothers : (Json.obj s.others).Everywhere Json.Storable) :
    s.toJson.Everywhere Json.Storable := by
  have hknown : (s.knownFields.map (·.1)).Nodup := by
    rw [knownFields_keys]
    decide
  have hkeys : (s.toFields.map (·.1)).Nodup := by
    rw [toFields, List.map_append, List.nodup_append]
    refine ⟨hknown, hothers.1, ?_⟩
    rintro key hkey other hother rfl
    obtain ⟨f, hf, rfl⟩ := List.mem_map.mp hother
    exact h.others f hf hkey
  have htexts : ∀ texts : List String, (Json.strings texts).Everywhere Json.Storable := by
    intro texts
    refine ⟨trivial, ?_⟩
    rw [Json.everywhereItems_iff, List.forall_mem_map]
    exact fun _ _ => trivial
  have hroots : (Json.obj (s.sourceRoots.map fun root => (root.1, Json.str root.2))).Everywhere
      Json.Storable := by
    refine ⟨?_, ?_⟩
    · have hnames := h.roots.1
      rw [Json.Storable, List.map_map]
      exact hnames
    · rw [Json.everywhereFields_iff, List.forall_mem_map]
      exact fun _ _ => trivial
  refine ⟨hkeys, ?_⟩
  rw [Json.everywhereFields_iff, toFields, List.forall_mem_append, ← Json.everywhereFields_iff]
  refine ⟨?_, (Json.everywhereFields_iff _ _).mp hothers.2⟩
  exact ⟨hroots, trivial, trivial, htexts _, trivial, htexts _, htexts _, htexts _, trivial, hworkers,
    trivial, trivial, trivial⟩

/-- What is loaded of checked settings that were saved: they themselves without a version. -/
theorem updated_toFields (workdir : String) (s : Settings) (h : Tidy s) :
    updated workdir s.toFields =
      { s with others := s.others.filter (·.1 ≠ "version") }.toFields := by
  have hkeys : s.knownFields.map (·.1) = (usual workdir).toFields.map (·.1) := rfl
  have hversion : ∀ f ∈ s.knownFields, f.1 ≠ "version" := by
    have hnot : "version" ∉ s.knownFields.map (·.1) := by
      rw [knownFields_keys]
      decide
    intro f hf heq
    exact hnot (heq ▸ List.mem_map_of_mem hf)
  have hfilter : s.toFields.filter (·.1 ≠ "version") =
      s.knownFields ++ s.others.filter (·.1 ≠ "version") := by
    rw [toFields, List.filter_append, List.filter_eq_self.mpr fun f hf => by simpa using hversion f hf]
  rw [updated, hfilter, Json.overlay_same _ _ _ hkeys (hkeys ▸ usual_nodup workdir)]
  · rfl
  · intro f hf
    exact h.others f (List.mem_filter.mp hf).1

section
variable (env : Environment) (strict : Bool)

theorem gives_checkText (field fallback text : String) :
    (checkText strict field fallback (some (.str text))).Gives (Text.trim text) :=
  .pure _

theorem flatten_itemOf (texts : List String) :
    ((texts.map Json.str).map itemOf).flatten = (texts.map Text.trim).filter (· ≠ "") := by
  induction texts with
  | nil => rfl
  | cons text texts ih =>
    rw [List.map_cons, List.map_cons, List.flatten_cons, ih, List.map_cons, itemOf]
    by_cases hblank : Text.trim text = ""
    · rw [if_pos hblank, List.filter_cons_of_neg (by simpa using hblank), List.nil_append]
    · rw [if_neg hblank, List.filter_cons_of_pos (by simpa using hblank), List.singleton_append]

/-- Blank texts are left out without a warning. -/
theorem gives_listedTexts (field : String) (fallback texts : List String) :
    (checkTexts strict field fallback (some (.strings texts))).Gives
      ((texts.map Text.trim).filter (· ≠ "")) := by
  have hitems : ((texts.map Json.str).mapM (checkItem strict field)).Gives
      ((texts.map Json.str).map itemOf) := by
    refine .mapM _ _ _ ?_
    rw [List.forall_mem_map]
    exact fun text _ => .pure _
  refine .bind _ _ _ _ hitems ?_
  rw [flatten_itemOf texts]
  exact .pure _

theorem gives_checkTexts (field : String) (fallback texts : List String)
    (h : ∀ text ∈ texts, Text.trim text ≠ "") :
    (checkTexts strict field fallback (some (.strings texts))).Gives (texts.map Text.trim) := by
  have hgives := gives_listedTexts strict field fallback texts
  rwa [List.filter_eq_self.mpr (by simpa using h)] at hgives

theorem gives_trimmedTexts (field : String) (fallback texts : List String)
    (h : ∀ text ∈ texts, text ≠ "" ∧ Text.trim text = text) :
    (checkTexts strict field fallback (some (.strings texts))).Gives texts := by
  have hgives := gives_checkTexts strict field fallback texts fun text htext =>
    (h text htext).2.symm ▸ (h text htext).1
  rwa [(map_eq_self_iff _ _).mpr fun text htext => (h text htext).2] at hgives

theorem reread_trim (path : String) : Path.reread env (Text.trim path) = Path.reread env path := by
  rw [Path.reread, Path.reread, Text.trim_trim]

theorem gives_located (text fallback : String) (h : Path.isRooted (Text.trim text) = true) :
    (located env text fallback).Gives (Path.reread env text) := by
  have hgiven : Path.given text fallback = Text.trim text := by
    rw [Path.given, if_neg (Path.full_of_isRooted _ h)]
  have hresolve : Path.resolve env text fallback = .ok (Path.reread env text) := by
    rw [Path.resolve_eq_ok_iff, hgiven]
    exact ⟨(Path.hasNullAccount_of_isRooted _ h).1, rfl⟩
  rw [located, hresolve]
  exact .pure _

/-- The path of a file has been trimmed before it is read again. -/
theorem gives_located_trimmed (path fallback : String) (h : Path.isRooted path = true) :
    (located env (Text.trim path) fallback).Gives (Path.reread env path) := by
  rw [← reread_trim env path]
  apply gives_located
  rw [Text.trim_trim]
  exact Path.isRooted_trim path h

theorem gives_locatedFolder (path : String) (h : path = "" ∨ Path.isRooted path = true) :
    (locatedFolder env (Text.trim path)).Gives
      (if path = "" then "" else Path.reread env path) := by
  rcases h with rfl | h
  · exact .pure _
  · rw [locatedFolder, if_neg (Path.full_of_isRooted _ (Path.isRooted_trim path h)),
      if_neg (Path.full_of_isRooted path h)]
    exact gives_located_trimmed env path "" h

/-- A source is a web address, which stays, or a path. -/
theorem gives_locatedSource (source : String)
    (h : Path.isRemote source = true ∨ Path.isRooted source = true)
    (htrim : Path.isRemote source = true → Text.trim source = source) :
    (locatedSource env (Text.trim source)).Gives
      (if Path.isRemote source then source else Path.reread env source) := by
  by_cases hremote : Path.isRemote source = true
  · rw [htrim hremote, locatedSource, if_pos hremote, if_pos hremote]
    exact .pure _
  · have hrooted := h.resolve_left hremote
    have hpath := Path.isRemote_of_isRooted _ (Path.isRooted_trim source hrooted)
    rw [locatedSource, if_neg hremote, hpath, if_neg Bool.false_ne_true]
    exact gives_located_trimmed env source _ hrooted

theorem gives_locatedSources (sources : List String)
    (h : ∀ source ∈ sources, Path.isRemote source = true ∨ Path.isRooted source = true)
    (htrim : ∀ source ∈ sources, Path.isRemote source = true → Text.trim source = source) :
    ((sources.map Text.trim).mapM (locatedSource env)).Gives
      (sources.map fun source => if Path.isRemote source then source else Path.reread env source) := by
  induction sources with
  | nil => exact .pure []
  | cons source sources ih =>
    rw [List.forall_mem_cons] at h htrim
    rw [List.map_cons, List.mapM_cons]
    refine .bind _ _ _ _ (gives_locatedSource env source h.1 htrim.1) ?_
    exact .bind _ _ _ _ (ih h.2 htrim.2) (.pure _)

/-- The roots are taken over one by one, each under its own name. -/
theorem gives_checkRoots (roots : List (String × String)) (hnames : (roots.map (·.1)).Nodup)
    (h : ∀ root ∈ roots, root.1 ≠ "" ∧ Text.trim root.1 = root.1 ∧ Path.isRooted root.2 = true) :
    (checkRoots env strict (some (.obj (roots.map fun (name, path) => (name, .str path))))).Gives
      (roots.map fun root => (root.1, Path.reread env root.2)) := by
  have hmore : ∀ before : List (String × String), ((before ++ roots).map (·.1)).Nodup →
      ((roots.map fun (name, path) => (name, Json.str path)).foldlM
        (checkRoot env strict) before).Gives
        (before ++ roots.map fun root => (root.1, Path.reread env root.2)) := by
    clear hnames
    induction roots with
    | nil =>
      intro before _
      rw [List.map_nil, List.map_nil, List.append_nil]
      exact .pure _
    | cons root roots ih =>
      intro before hnodup
      rw [List.forall_mem_cons] at h
      obtain ⟨⟨hfull, htrim, hrooted⟩, hroots⟩ := h
      have htrimmed := Path.isRooted_trim root.2 hrooted
      have hnew : root.1 ∉ before.map (·.1) := by
        rw [List.map_append, List.nodup_append] at hnodup
        intro hmem
        exact hnodup.2.2 _ hmem _ (by simp) rfl
      have hone : (checkRoot env strict before (root.1, .str root.2)).Gives
          (before ++ [(root.1, Path.reread env root.2)]) := by
        unfold checkRoot
        simp only [htrim]
        rw [if_neg (not_or.mpr ⟨hfull, Path.full_of_isRooted _ htrimmed⟩)]
        refine .bind _ _ _ _ (gives_located env root.2 _ htrimmed) ?_
        rw [Json.put_of_new _ _ _ hnew]
        exact .pure _
      have hrest := ih hroots (before ++ [(root.1, Path.reread env root.2)]) (by simpa using hnodup)
      rw [List.append_assoc, List.singleton_append] at hrest
      rw [List.map_cons, List.map_cons, List.foldlM_cons]
      exact .bind _ _ _ _ hone hrest
  exact hmore [] hnames

theorem gives_checkPriority (rule : Priority) : (checkPriority strict rule.word).Gives rule := by
  cases rule <;> exact .pure _

theorem trim_word (rule : Priority) : Text.trim rule.word = rule.word := by
  cases rule <;> decide

/-- The fields that mean something are known by the same keys in all settings. -/
theorem unknown_usual (workdir : String) (s : Settings) (key : String) :
    (Json.getKey? (usual workdir).knownFields key).isNone = true ↔
      key ∉ s.knownFields.map (·.1) := by
  rw [Option.isNone_iff_eq_none, Json.getKey?_eq_none_iff]
  exact Iff.rfl

theorem gives_checkFields (s : Settings) (h : Tidy s) :
    (checkFields env strict s.toFields).Gives (s.reread env) := by
  have hextensions : ∀ text ∈ s.extensions, text ≠ "" ∧ Text.trim text = text := by
    intro text htext
    refine ⟨?_, h.texts text (List.mem_append_left _ htext)⟩
    rintro rfl
    cases h.extensions.2 _ htext
  have hincluded : ∀ text ∈ s.included, text ≠ "" ∧ Text.trim text = text := fun text htext =>
    ⟨h.included text htext, h.texts text (by simp [htext])⟩
  have hexcluded : ∀ text ∈ s.excluded, text ≠ "" ∧ Text.trim text = text := fun text htext =>
    ⟨h.excluded text htext, h.texts text (by simp [htext])⟩
  have hfull : ∀ source ∈ s.mergeWith, Text.trim source ≠ "" := by
    intro source hsource
    rcases (h.mergeWith source hsource).2 with hremote | hrooted
    · rw [h.sources source hsource hremote]
      exact (h.mergeWith source hsource).1
    · exact Path.full_of_isRooted _ (Path.isRooted_trim source hrooted)
  have hsources : ((s.mergeWith.map Text.trim).mapM (locatedSource env)).Gives
      (s.mergeWith.map fun source =>
        if Path.isRemote source then source else Path.reread env source) := by
    exact gives_locatedSources env s.mergeWith (fun source hsource => (h.mergeWith source hsource).2)
      h.sources
  have hothers : s.toFields.filter
      (fun f => (Json.getKey? (usual env.workdir).knownFields f.1).isNone) = s.others := by
    rw [toFields, List.filter_append, List.filter_eq_nil_iff.mpr, List.nil_append,
      List.filter_eq_self]
    · intro f hf
      exact (unknown_usual env.workdir s f.1).mpr (h.others f hf)
    · intro f hf hnone
      exact (unknown_usual env.workdir s f.1).mp hnone (List.mem_map_of_mem hf)
  unfold checkFields
  refine .bind _ _ _ _ (gives_checkText strict _ _ s.outputPath) ?_
  refine .bind _ _ _ _ (gives_checkText strict _ _ s.scriptFolder) ?_
  refine .bind _ _ _ _ (gives_checkText strict _ _ s.logLevel) ?_
  refine .bind _ _ _ _ (gives_checkText strict _ _ s.logFile) ?_
  refine .bind _ _ _ _ (gives_checkText strict _ _ s.priority.word) ?_
  refine .bind _ _ s.respectIgnored _ (.pure _) ?_
  refine .bind _ _ s.workers _ (.pure _) ?_
  refine .bind _ _ _ _ (gives_trimmedTexts strict _ _ s.extensions hextensions) ?_
  refine .bind _ _ _ _ (gives_trimmedTexts strict _ _ s.included hincluded) ?_
  refine .bind _ _ _ _ (gives_trimmedTexts strict _ _ s.excluded hexcluded) ?_
  refine .bind _ _ _ _ (gives_checkTexts strict _ _ s.mergeWith hfull) ?_
  refine .bind _ _ _ _ (gives_checkRoots env strict s.sourceRoots h.roots.1 h.roots.2) ?_
  refine .bind _ _ _ _ (gives_located_trimmed env s.outputPath _ h.output) ?_
  refine .bind _ _ _ _ (gives_locatedFolder env s.scriptFolder h.scripts) ?_
  refine .bind _ _ _ _ hsources ?_
  rw [trim_word]
  refine .bind _ _ _ _ (gives_checkPriority strict s.priority) ?_
  rw [h.logLevel, h.logFile, dotted_eq s.extensions h.extensions.1 h.extensions.2, hothers]
  exact .pure _

/-- Trimmed texts stay so when they get their dots. -/
theorem trim_withDot (text : String) (h : Text.trim text = text) :
    Text.trim (withDot text) = withDot text := by
  unfold withDot
  split
  case isTrue => exact h
  case isFalse =>
    have hdot : ('.' :: text.toList).rdropWhile Text.isBlank = '.' :: text.toList := by
      rw [List.rdropWhile_eq_self_iff]
      intro _ hblank
      by_cases hnone : text.toList = []
      · simp only [hnone, List.getLast_singleton] at hblank
        exact absurd hblank (by decide)
      · have hend : (text.toList).rdropWhile Text.isBlank = text.toList := by
          have hright := Text.trimRight_trimRight (Text.trimLeft text.toList)
          rwa [← Text.toList_trim, h] at hright
        rw [List.getLast_cons hnone] at hblank
        exact List.rdropWhile_eq_self_iff.mp hend hnone hblank
    rw [← String.toList_inj, Text.toList_trim, String.toList_append]
    change Text.trimRight (Text.trimLeft ('.' :: text.toList)) = '.' :: text.toList
    rw [Text.trimLeft_of_head '.' _ (by decide)]
    exact hdot

theorem ensures_trimmedText (field fallback : String) (v : Option Json)
    (h : Text.trim fallback = fallback) :
    (checkText strict field fallback v).Ensures fun text => Text.trim text = text := by
  unfold checkText
  split
  · exact Ensures.pure _ _ h
  · exact Ensures.pure _ _ h
  case h_3 text => exact Ensures.pure _ _ (Text.trim_trim text)
  · exact ensures_fault _ _ _ _ h

theorem ensures_trimmedTexts (field : String) (fallback : List String) (v : Option Json)
    (h : ∀ text ∈ fallback, Text.trim text = text) :
    (checkTexts strict field fallback v).Ensures fun texts =>
      ∀ text ∈ texts, Text.trim text = text :=
  ensures_checkTexts strict (fun text => Text.trim text = text) field fallback v h
    fun _ _ htrim => htrim

/-- The usual texts need no trimming. -/
theorem trim_usual (workdir : String) :
    Text.trim (usual workdir).logLevel = (usual workdir).logLevel ∧
      Text.trim (usual workdir).logFile = (usual workdir).logFile ∧
      ∀ text ∈ (usual workdir).extensions ++ ((usual workdir).included ++ (usual workdir).excluded),
        Text.trim text = text := by
  change Text.trim "INFO" = "INFO" ∧ Text.trim "" = "" ∧
    ∀ text ∈ usualExtensions ++ (usualIncluded ++ usualExcluded), Text.trim text = text
  decide +kernel

section
variable (hwork : Path.isRooted env.workdir = true)
include hwork

theorem normal_absolute (path : String) :
    Path.normal (Path.absolute env.workdir path) = Path.absolute env.workdir path :=
  Path.normal_normal _ (Path.isRooted_from env.workdir path hwork)

theorem ensures_normal (text fallback : String) :
    (located env text fallback).Ensures fun path => Path.normal path = path := by
  refine Ensures.mono _ _ _ (ensures_located env text fallback) fun path hpath => ?_
  obtain ⟨given, hgiven⟩ := hpath
  rw [hgiven]
  exact normal_absolute env hwork given

theorem ensures_normalFolder (text : String) :
    (locatedFolder env text).Ensures fun path => path ≠ "" → Path.normal path = path := by
  unfold locatedFolder
  split
  · exact Ensures.pure _ _ fun hfull => absurd rfl hfull
  · exact Ensures.mono _ _ _ (ensures_normal env hwork text "") fun _ hnormal _ => hnormal

theorem ensures_normalSource (source : String) (htrim : Text.trim source = source) :
    (locatedSource env source).Ensures fun text =>
      (Path.isRemote text = true → Text.trim text = text) ∧
        (Path.isRemote text = false → Path.normal text = text) := by
  unfold locatedSource
  split
  case isTrue hremote =>
    exact Ensures.pure _ _ ⟨fun _ => htrim, fun hlocal => absurd hremote (by simp [hlocal])⟩
  case isFalse =>
    refine Ensures.mono _ _ _ (ensures_located env source source) fun path hpath => ?_
    obtain ⟨given, hgiven⟩ := hpath
    have hlocal := Path.isRemote_of_isRooted _ (Path.isRooted_absolute env.workdir given hwork)
    rw [hgiven]
    exact ⟨fun hremote => absurd hremote (by simp [hlocal]), fun _ => normal_absolute env hwork given⟩

theorem tidy_usual (hnormal : Path.normal env.workdir = env.workdir) :
    Tidy (usual env.workdir) where
  toSound := sound_usual env.workdir hwork
  logLevel := (trim_usual env.workdir).1
  logFile := (trim_usual env.workdir).2.1
  texts := (trim_usual env.workdir).2.2
  sources := nofun
  normal := by
    intro path hpath
    obtain rfl : path = Path.join env.workdir artifactName := List.mem_singleton.mp hpath
    have hname : Path.IsName artifactName :=
      ⟨by decide, by decide, by decide, by decide⟩
    rw [Path.normal_join _ _ (Path.full_of_isRooted _ hwork) hname hwork, hnormal]
  others := nofun

theorem ensures_tidy (fields : List (String × Json)) :
    (checkFields env strict fields).Ensures Tidy := by
  obtain ⟨hlevel, hfile, htexts⟩ := trim_usual env.workdir
  have hrest : (checkFields env strict fields).Ensures fun s => Sound s → Tidy s := by
    unfold checkFields
    refine Ensures.after _ _ _ fun output => ?_
    refine Ensures.after _ _ _ fun scripts => ?_
    refine Ensures.bind _ _ _ _ (ensures_trimmedText strict _ _ _ hlevel) fun logLevel hlogLevel => ?_
    refine Ensures.bind _ _ _ _ (ensures_trimmedText strict _ _ _ hfile) fun logFile hlogFile => ?_
    iterate 3 refine Ensures.after _ _ _ fun _ => ?_
    refine Ensures.bind _ _ _ _ (ensures_trimmedTexts strict _ _ _ fun text htext =>
      htexts text (List.mem_append_left _ htext)) fun extensions hextensions => ?_
    refine Ensures.bind _ _ _ _ (ensures_trimmedTexts strict _ _ _ fun text htext =>
      htexts text (List.mem_append_right _ (List.mem_append_left _ htext)))
      fun included hincluded => ?_
    refine Ensures.bind _ _ _ _ (ensures_trimmedTexts strict _ _ _ fun text htext =>
      htexts text (List.mem_append_right _ (List.mem_append_right _ htext)))
      fun excluded hexcluded => ?_
    refine Ensures.bind _ _ _ _ (ensures_trimmedTexts strict _ _ _ nofun)
      fun mergeWith hmergeWith => ?_
    refine Ensures.bind _ _ _ _ (ensures_checkRoots env strict _) fun roots hroots => ?_
    refine Ensures.bind _ _ _ _ (ensures_normal env hwork _ _) fun output houtput => ?_
    refine Ensures.bind _ _ _ _ (ensures_normalFolder env hwork _) fun scripts hscripts => ?_
    refine Ensures.bind _ _ _ _ (Ensures.mapM _ _ _ fun source hsource =>
      ensures_normalSource env hwork source (hmergeWith source hsource)) fun sources hsources => ?_
    refine Ensures.after _ _ _ fun priority => ?_
    refine Ensures.pure _ _ fun hsound => ?_
    have hdotted : ∀ text ∈ dotted extensions, Text.trim text = text := by
      intro text htext
      obtain ⟨extension, hmem, rfl⟩ := List.mem_map.mp (List.mem_eraseDups.mp htext)
      exact trim_withDot extension (hextensions extension hmem)
    refine ⟨hsound, hlogLevel, hlogFile, ?_, fun source hsource => (hsources source hsource).1,
      ?_, ?_⟩
    · simp only [List.forall_mem_append]
      exact ⟨hdotted, hincluded, hexcluded⟩
    · intro path hpath
      rcases (mem_paths_iff _ _).mp hpath with ⟨name, hroot⟩ | rfl | ⟨hfull, rfl⟩ | ⟨hsource, hlocal⟩
      · obtain ⟨given, hgiven⟩ := (hroots.each _ hroot).folder
        have habsolute : path = Path.absolute env.workdir given := hgiven
        rw [habsolute]
        exact normal_absolute env hwork given
      · exact houtput
      · exact hscripts hfull
      · exact (hsources path hsource).2 hlocal
    · intro f hf
      exact (unknown_usual env.workdir _ f.1).mp (List.mem_filter.mp hf).2
  intro before s after hrun
  exact hrest before s after hrun (ensures_sound env strict hwork fields before s after hrun).1

/-- Whatever a check gives is tidy. -/
theorem check_tidy (hnormal : Path.normal env.workdir = env.workdir) (config : Json)
    (s : Settings) (ws : List Warning) (h : check env strict config = .ok (s, ws)) : Tidy s := by
  unfold check at h
  split at h
  · exact ensures_tidy env strict hwork _ [] s ws h
  · exact ensures_fault strict _ _ _ (tidy_usual env hwork hnormal) [] s ws h

/-- A second check of what a check gave, strict or not, never fails and warns of nothing. It reads
every path once more, and leaves the settings as they are just in case no path becomes another one.
No path does that has nothing to trim and nothing to expand. Saving and loading come between to no
effect, but that a version is left out. -/
theorem check_again (hnormal : Path.normal env.workdir = env.workdir) (config : Json)
    (s : Settings) (ws : List Warning) (h : check env strict config = .ok (s, ws)) :
    (∀ strict', check env strict' s.toJson = .ok (s.reread env, [])) ∧
      (s.reread env = s ↔ ∀ path ∈ s.paths, Path.reread env path = path) ∧
      (∀ path ∈ s.paths, Text.trim path = path → Path.expand env path = path →
        Path.reread env path = path) ∧
      ∀ (host host' : Host) (path : Option String),
        (∀ v ∈ host.vars, v.2.toList.contains '\x00' = false) → host.disk.WellFormed →
        Json.Storable (.int s.workers) → (Json.obj s.others).Everywhere Json.Storable →
        (save s.toFields path).run host = (.ok true, host') →
        ∃ fields k, (load path).run host' = (.ok fields, k) ∧
          ∀ strict', check env strict' (.obj fields) =
            .ok ({ s with others := s.others.filter (·.1 ≠ "version") }.reread env, []) := by
  have htidy := check_tidy env strict hwork hnormal config s ws h
  refine ⟨fun strict' => gives_checkFields env strict' s htidy [], mapPaths_eq_iff _ s, ?_, ?_⟩
  · intro path hpath htrim hexpand
    exact Path.reread_eq env path (htidy.rooted s path hpath) (htidy.normal path hpath) htrim hexpand
  · intro host host' path hvars hdisk hworkers hothers hsaved
    have hstorable := storable_toJson s htidy hworkers hothers
    obtain ⟨k, hloaded⟩ := load_saved host hvars hdisk path s.toFields host' hstorable hsaved
    rw [updated_toFields _ s htidy] at hloaded
    refine ⟨_, k, hloaded, fun strict' => ?_⟩
    exact gives_checkFields env strict' _ (htidy.without s _) []

end

end

/-- A machine on which the variable of the paths is set. -/
def namedHost : Host :=
  { bareHost with vars := [("NAME", "nav")] }

theorem check_again_untidy :
    let env := namedHost.environment
    (∀ strict, check env strict tidied.toJson = .ok (tidied, [])) ∧
      (∀ path ∈ tidied.paths, Path.reread env path = path) ∧
      ∃ h fields k, (save tidied.toFields (some "c")).run namedHost = (.ok true, h) ∧
        (load (some "c")).run h = (.ok fields, k) ∧
        ∀ strict, check env strict (.obj fields) = .ok (tidied, []) := by
  intro env
  have hwork : Path.isRooted env.workdir = true := by decide +kernel
  have hnormal : Path.normal env.workdir = env.workdir := by decide +kernel
  have hcheck : check env false untidy = .ok (tidied, [.textToCount "max_workers" "8",
      .replaced (.itemNotText "merge_with" "NoneType"), .replaced (.root "" (.str "x"))]) := by
    decide +kernel
  have hdisk : namedHost.disk.WellFormed := Disk.wellFormed_of_entries _ (by decide) (by decide)
  obtain ⟨hagain, hsame, -, hsaved⟩ := check_again env false hwork hnormal untidy tidied _ hcheck
  have hpaths : ∀ path ∈ tidied.paths, Path.reread env path = path := by decide +kernel
  have hint : ∀ n ∈ [(1 : Int), 8], Json.Storable (.int n) := by
    unfold Json.Storable
    decide +kernel
  obtain ⟨h, hrun⟩ := Effect.exists_state_of_fst ((save tidied.toFields (some "c")).run namedHost)
    (.ok true) (by decide +kernel)
  obtain ⟨fields, k, hloaded, hchecked⟩ := hsaved namedHost h (some "c") (by decide) hdisk
    (hint 8 (by decide)) ⟨List.nodup_singleton _, hint 1 (by decide), trivial⟩ hrun
  have hwhole : { tidied with others := tidied.others.filter (·.1 ≠ "version") } = tidied := by
    decide +kernel
  rw [hwhole] at hchecked
  rw [hsame.mpr hpaths] at hagain hchecked
  exact ⟨hagain, hpaths, h, fields, k, hrun, hloaded, hchecked⟩

/-- White space that was inside a path as it was written can be at the end of the path itself, and is
trimmed the next time. -/
theorem check_again_shorter :
    let env : Environment := { workdir := "/W", vars := [] }
    let once := { usual "/W" with outputPath := "/W/a " }
    check env false (.obj [("output_path", .str "a /.")]) = .ok (once, []) ∧
      check env false once.toJson = .ok ({ once with outputPath := "/W/a" }, []) := by
  decide +kernel

end Settings

end DocNavigation
