import DocNavigation.CommandLine.Overrides
import DocNavigation.Proofs.CommandLine.Presence
import DocNavigation.Proofs.Settings.Fields

/-!
The options of a build over its settings file. An option that is given decides its field, and one
that is not leaves it to the file; but a list of extensions or patterns that is given empty counts as
none.
-/

namespace DocNavigation

namespace Json

section
variable {α : Type} (fields updates : List (String × α))

/-- What is put counts before what was there. -/
theorem getKey?_putAll_of_nodup (h : (updates.map (·.1)).Nodup) (key : String) :
    getKey? (putAll fields updates) key = (getKey? updates key).or (getKey? fields key) := by
  induction updates generalizing fields with
  | nil => rfl
  | cons f updates ih =>
    rw [List.map_cons, List.nodup_cons] at h
    rw [putAll_cons, ih _ h.2, getKey?_put, getKey?_cons]
    by_cases hf : f.1 = key
    · have hnone : getKey? updates key = none := (getKey?_eq_none_iff updates key).mpr (hf ▸ h.1)
      rw [if_pos hf, if_pos hf, hnone]
      rfl
    · rw [if_neg hf, if_neg hf]

theorem getKey?_filter_value (p : α → Bool) (h : (fields.map (·.1)).Nodup) (key : String) :
    getKey? (fields.filter fun f => p f.2) key = (getKey? fields key).filter p := by
  induction fields with
  | nil => rfl
  | cons f fields ih =>
    rw [List.map_cons, List.nodup_cons] at h
    rw [List.filter_cons, getKey?_cons]
    by_cases hf : f.1 = key
    · have hnone : getKey? fields key = none := (getKey?_eq_none_iff fields key).mpr (hf ▸ h.1)
      rw [if_pos hf, Option.filter_some]
      split
      · rw [getKey?_cons, if_pos hf]
      · rw [ih h.2, hnone]
        rfl
    · rw [if_neg hf]
      split
      · rw [getKey?_cons, if_neg hf, ih h.2]
      · exact ih h.2

end

end Json

namespace CommandLine

/-- The options of a build that have a field among the settings. -/
inductive BuildOption where
  | units
  | output
  | mergeWith
  | priority
  | scripts
  | extensions
  | excluded
  | noIgnored
  | workers
deriving DecidableEq, Repr

namespace BuildOption

/-- The key of the option in its grammar. -/
def key : BuildOption → String
  | .units => "units"
  | .output => "output_path"
  | .mergeWith => "merge_with"
  | .priority => "priority"
  | .scripts => "legacy_export_dir"
  | .extensions => "extensions"
  | .excluded => "exclude_patterns"
  | .noIgnored => "no_gitignore"
  | .workers => "max_workers"

/-- The field of the settings that the option is for. -/
def field : BuildOption → String
  | .units => "source_roots"
  | .priority => "merge_priority"
  | .noIgnored => "respect_gitignore"
  | o => o.key

/-- The option is among the words of a build, whatever its value. -/
def Occurs (words : List String) (o : BuildOption) : Prop :=
  ∃ p rest q, parse mainGrammar words = .ok p ∧ texts? p.values "command" = some ("build" :: rest) ∧
    parse buildGrammar rest = .ok q ∧ o.key ∈ q.seen

/-- A list that is given as an empty text. -/
def IsBlank (a : BuildArguments) : BuildOption → Prop
  | .extensions => a.extensions = some ""
  | .excluded => a.excluded = some ""
  | _ => False

def isSet (a : BuildArguments) : BuildOption → Bool
  | .units => !a.units.isEmpty
  | .output => a.output.isSome
  | .mergeWith => a.mergeWith.isSome
  | .priority => a.priority.isSome
  | .scripts => a.scriptFolder.isSome
  | .extensions => a.extensions.isSome
  | .excluded => a.excluded.isSome
  | .noIgnored => a.noIgnored
  | .workers => a.workers.isSome

def taking : BuildOption → Taking
  | .units | .mergeWith => .texts
  | .priority => .choice priorityWords
  | .noIgnored => .switch
  | .workers => .integer
  | _ => .text

theorem exists_spec (o : BuildOption) :
    ∃ s ∈ buildGrammar.options, s.key = o.key ∧ s.taking = o.taking := by
  cases o <;> decide

end BuildOption

theorem commandOf_build (word : String) (values : List (String × Value)) (a : BuildArguments)
    (h : commandOf word values = .build a) : word = "build" := by
  unfold commandOf at h
  split at h
  case isTrue hword => exact hword
  case isFalse =>
    repeat' split at h
    all_goals cases h

/-- The arguments of a build are what its own grammar reads after the command's word. -/
theorem understand_build (words : List String) (i : Invocation) (a : BuildArguments)
    (h : understand words = .ok i) (hbuild : i.command = .build a) :
    ∃ p rest q, parse mainGrammar words = .ok p ∧ texts? p.values "command" = some ("build" :: rest) ∧
      parse buildGrammar rest = .ok q ∧ commandOf "build" q.values = .build a := by
  obtain ⟨p, hp, h⟩ := (Result.bind_eq_ok_iff _ _ _).mp h
  have hp := (Result.mapError_eq_ok_iff _ _ _).mp hp
  split at h
  case h_1 word rest hcommand =>
    obtain ⟨q, hq, h⟩ := (Result.bind_eq_ok_iff _ _ _).mp h
    have hq := (Result.mapError_eq_ok_iff _ _ _).mp hq
    have hvalues : commandOf word q.values = .build a := by
      simp only at h
      split at h
      · cases h
      · cases h
        exact hbuild
    obtain rfl := commandOf_build word q.values a hvalues
    exact ⟨p, rest, q, hp, hcommand, hq, hvalues⟩
  case h_2 => cases h

/-- The options that occur are those that the arguments have a value for. -/
theorem BuildOption.occurs_iff (words : List String) (i : Invocation) (a : BuildArguments)
    (h : understand words = .ok i) (hbuild : i.command = .build a) (o : BuildOption) :
    o.Occurs words ↔ o.isSet a = true := by
  obtain ⟨p, rest, q, hp, hcommand, hq, hvalues⟩ := understand_build words i a h hbuild
  have hsane := parse_sane buildGrammar (by decide) rest q rfl hq
  have hoccurs : o.Occurs words ↔ (Json.getKey? q.values o.key).isSome := by
    rw [← hsane.seen]
    constructor
    · rintro ⟨p', rest', q', hp', hcommand', hq', hseen⟩
      cases hp.symm.trans hp'
      cases hcommand.symm.trans hcommand'
      cases hq.symm.trans hq'
      exact hseen
    · exact fun hseen => ⟨p, rest, q, hp, hcommand, hq, hseen⟩
  obtain ⟨spec, hspec, hkey, htaking⟩ := o.exists_spec
  have hfits := hsane.fits spec hspec
  rw [hkey, htaking] at hfits
  rw [hoccurs]
  cases hvalues
  cases hvalue : Json.getKey? q.values o.key with
  | none =>
    cases o <;> simp only [BuildOption.key] at hvalue <;>
      simp [BuildOption.isSet, texts?, text?, integer?, isOn, hvalue]
  | some v =>
    have hv := hfits v hvalue
    cases o <;> simp only [BuildOption.key] at hvalue <;> cases hv <;>
      simp_all [BuildOption.isSet, texts?, text?, integer?, isOn]

end CommandLine

namespace BuildArguments

open CommandLine

/-- What the arguments put over the fields of the file. -/
def given (overrides : List (String × Json)) : List (String × Json) :=
  overrides.filter fun f => f.2 ≠ .null

theorem getKey?_mergeFields (base overrides : List (String × Json))
    (h : (overrides.map (·.1)).Nodup) (key : String) :
    Json.getKey? (mergeFields base overrides) key =
      (Json.getKey? (given overrides) key).or (Json.getKey? base key) :=
  Json.getKey?_putAll_of_nodup base (given overrides)
    (h.sublist (List.filter_sublist.map _)) key

/-- A field that is there only if it has a value. -/
def optionalField (key : String) (v : Option Json) : List (String × Json) :=
  (v.map fun v => (key, v)).toList

theorem getKey?_optionalField (key : String) (v : Option Json) (other : String) :
    Json.getKey? (optionalField key v) other = if key = other then v else none := by
  cases v with
  | none => simp [optionalField, Json.getKey?]
  | some v => exact Json.getKey?_cons (key, v) [] other

/-- The items of a list that is not empty. -/
def listed (value : Option String) : Option Json :=
  (value.filter (· ≠ "")).map fun s => .strings (Text.commaSeparated s)

section
variable (a : BuildArguments) (overrides : List (String × Json)) (h : a.overrides = .ok overrides)
include h

theorem overrides_eq : ∃ roots, overrides =
    optionalField "source_roots" (if a.units.isEmpty then none else some (.obj roots))
      ++ [("output_path", textOrNull a.output),
          ("merge_with", (a.mergeWith.map Json.strings).getD .null),
          ("merge_priority", textOrNull a.priority),
          ("legacy_export_dir", textOrNull a.scriptFolder),
          ("max_workers", (a.workers.map Json.int).getD .null)]
      ++ optionalField "extensions" (listed a.extensions)
      ++ optionalField "exclude_patterns" (listed a.excluded)
      ++ optionalField "respect_gitignore" (if a.noIgnored then some (.bool false) else none) := by
  obtain ⟨roots, -, h⟩ := (Result.bind_eq_ok_iff _ _ _).mp h
  cases h
  refine ⟨roots.map fun root => (root.1, Json.str root.2), ?_⟩
  beta_reduce
  unfold listed
  cases a.extensions.filter (· ≠ "") <;> cases a.excluded.filter (· ≠ "") <;>
    cases a.units.isEmpty <;> cases a.noIgnored <;> rfl

theorem overrides_nodup : (overrides.map (·.1)).Nodup := by
  obtain ⟨roots, rfl⟩ := overrides_eq a overrides h
  have hoptional : ∀ key v, ((optionalField key v).map (·.1)).Sublist [key] := by
    intro key v
    cases v with
    | none => exact List.nil_sublist _
    | some v => exact List.Sublist.refl _
  simp only [List.map_append]
  refine List.Nodup.sublist (((((hoptional _ _).append (.refl _)).append (hoptional _ _)).append
    (hoptional _ _)).append (hoptional _ _)) ?_
  simp

/-- An option has a field put over that of the file unless it is a list that is given empty. -/
theorem isSome_given_iff (o : BuildOption) :
    (Json.getKey? (given overrides) o.field).isSome ↔ o.isSet a = true ∧ ¬ o.IsBlank a := by
  rw [given, Json.getKey?_filter_value overrides (· ≠ .null) (overrides_nodup a overrides h)]
  obtain ⟨roots, rfl⟩ := overrides_eq a overrides h
  have hnone : ∀ key, Json.getKey? ([] : List (String × Json)) key = none := fun _ => rfl
  have htext : ∀ v : Option String, textOrNull v ≠ .null ↔ v.isSome = true := by
    intro v
    cases v <;> simp [textOrNull]
  have hlisted : ∀ v : Option String, ((listed v).filter (· ≠ .null)).isSome = true ↔
      v.isSome = true ∧ v ≠ some "" := by
    intro v
    cases v with
    | none => simp [listed]
    | some s => by_cases hs : s = "" <;> simp [listed, Option.filter_some, hs, Json.strings]
  simp only [Json.getKey?_append, Json.getKey?_cons, getKey?_optionalField, hnone]
  cases o with
  | units =>
    cases hunits : a.units <;>
      simp [BuildOption.field, BuildOption.isSet, BuildOption.IsBlank, hunits]
  | output =>
    simpa [BuildOption.field, BuildOption.key, BuildOption.isSet, BuildOption.IsBlank] using htext _
  | mergeWith =>
    cases hsources : a.mergeWith <;>
      simp [BuildOption.field, BuildOption.key, BuildOption.isSet, BuildOption.IsBlank, hsources,
        Json.strings]
  | priority =>
    simpa [BuildOption.field, BuildOption.isSet, BuildOption.IsBlank] using htext _
  | scripts =>
    simpa [BuildOption.field, BuildOption.key, BuildOption.isSet, BuildOption.IsBlank] using htext _
  | extensions =>
    simpa [BuildOption.field, BuildOption.key, BuildOption.isSet, BuildOption.IsBlank] using hlisted _
  | excluded =>
    simpa [BuildOption.field, BuildOption.key, BuildOption.isSet, BuildOption.IsBlank] using hlisted _
  | noIgnored =>
    cases hnoIgnored : a.noIgnored <;>
      simp [BuildOption.field, BuildOption.isSet, BuildOption.IsBlank, hnoIgnored]
  | workers =>
    cases hworkers : a.workers <;>
      simp [BuildOption.field, BuildOption.key, BuildOption.isSet, BuildOption.IsBlank, hworkers]

end

end BuildArguments

namespace CommandLine

/-- The options of a build override the settings file. An option that occurs has the same field over
any two files, and one that does not has the field that the file alone comes to, as has a list that
is given as an empty text. A build has settings if the file alone and the options alone have some. -/
theorem options_override (env : Environment) (hwork : Path.isRooted env.workdir = true)
    (words : List String) (i : Invocation) (a : BuildArguments) (overrides : List (String × Json))
    (hwords : understand words = .ok i) (hbuild : i.command = .build a)
    (hunits : a.overrides = .ok overrides) :
    let judged := fun base => Settings.check env false (.obj (BuildArguments.mergeFields base overrides))
    (∀ o : BuildOption, o.Occurs words → ¬ o.IsBlank a → ∀ base base' s s' ws ws',
      judged base = .ok (s, ws) → judged base' = .ok (s', ws') →
        Json.getKey? s.knownFields o.field = Json.getKey? s'.knownFields o.field) ∧
    (∀ o : BuildOption, ¬ o.Occurs words ∨ o.IsBlank a → ∀ base s s' ws ws',
      judged base = .ok (s, ws) → Settings.check env false (.obj base) = .ok (s', ws') →
        Json.getKey? s.knownFields o.field = Json.getKey? s'.knownFields o.field) ∧
    ∀ base, (∃ s ws, Settings.check env false (.obj base) = .ok (s, ws)) →
      (∃ s ws, judged [] = .ok (s, ws)) → ∃ s ws, judged base = .ok (s, ws) := by
  intro judged
  have hnodup := BuildArguments.overrides_nodup a overrides hunits
  have hmerged := fun base => BuildArguments.getKey?_mergeFields base overrides hnodup
  have hgiven : ∀ o : BuildOption, (Json.getKey? (BuildArguments.given overrides) o.field).isSome ↔
      o.Occurs words ∧ ¬ o.IsBlank a := fun o =>
    (BuildArguments.isSome_given_iff a overrides hunits o).trans
      (and_congr_left' (o.occurs_iff words i a hwords hbuild).symm)
  refine ⟨fun o hoccurs hfull base base' s s' ws ws' hs hs' => ?_,
    fun o hleft base s s' ws ws' hs hs' => ?_, fun base hbase halone => ?_⟩
  · obtain ⟨v, hv⟩ := Option.isSome_iff_exists.mp ((hgiven o).mpr ⟨hoccurs, hfull⟩)
    refine Settings.check_agrees env _ _ s s' ws ws' hs hs' o.field ?_
    rw [Settings.Same, hmerged, hmerged, hv]
    rfl
  · have hnone : Json.getKey? (BuildArguments.given overrides) o.field = none := by
      rw [← Option.not_isSome_iff_eq_none, hgiven o, not_and, not_not]
      exact fun hoccurs => hleft.resolve_left (not_not.mpr hoccurs)
    refine Settings.check_agrees env _ _ s s' ws ws' hs hs' o.field ?_
    rw [Settings.Same, hmerged, hnone]
    rfl
  · refine Settings.check_composed env hwork _ base _ (fun key => ?_) hbase halone
    rw [Settings.Same, Settings.Same, hmerged, hmerged]
    cases Json.getKey? (BuildArguments.given overrides) key with
    | none => exact .inl rfl
    | some v => exact .inr rfl

/-- A build with a list of extensions and one of patterns that is empty. -/
def listingWords : List String :=
  ["build", "--ext", ".md", "--exclude", ""]

def listingArguments : BuildArguments :=
  { extensions := some ".md", excluded := some "" }

def listingFile : List (String × Json) :=
  [("extensions", .str ".rs"), ("exclude_patterns", .str "^x"), ("max_workers", .int 3)]

theorem understand_listingWords :
    understand listingWords = .ok ⟨none, false, none, .build listingArguments⟩ := by
  decide +kernel

theorem options_override_listing : ∃ overrides, listingArguments.overrides = .ok overrides ∧
    BuildOption.extensions.Occurs listingWords ∧ BuildOption.excluded.Occurs listingWords ∧
    ∃ s s' ws ws',
      Settings.check ⟨"/W", [], []⟩ false (.obj (BuildArguments.mergeFields [] overrides)) = .ok (s, ws) ∧
      Settings.check ⟨"/W", [], []⟩ false (.obj (BuildArguments.mergeFields listingFile overrides)) =
        .ok (s', ws') ∧
      Json.getKey? s.knownFields "extensions" = Json.getKey? s'.knownFields "extensions" := by
  have hoccurs : ∀ o : BuildOption, o.isSet listingArguments = true → o.Occurs listingWords := fun o =>
    (o.occurs_iff listingWords _ listingArguments understand_listingWords rfl).mpr
  obtain ⟨hgiven, -, hexists⟩ := options_override ⟨"/W", [], []⟩ (by decide) listingWords _
    listingArguments _ understand_listingWords rfl rfl
  have halone : ∃ s ws, Settings.check ⟨"/W", [], []⟩ false (.obj (BuildArguments.mergeFields []
      (listingArguments.overrides.toOption.getD []))) = .ok (s, ws) := ⟨_, _, rfl⟩
  obtain ⟨s, ws, hs⟩ := halone
  obtain ⟨s', ws', hs'⟩ := hexists listingFile ⟨_, _, rfl⟩ ⟨s, ws, hs⟩
  exact ⟨_, rfl, hoccurs _ rfl, hoccurs _ rfl, s, s', ws, ws', hs, hs',
    hgiven .extensions (hoccurs _ rfl) (by simp [BuildOption.IsBlank, listingArguments]) _ _ s s' ws ws'
      hs hs'⟩

/-- An empty list of extensions leaves them to the file. -/
theorem empty_list_ignored :
    let words := ["build", "--ext", ""]
    let a : BuildArguments := { extensions := some "" }
    understand words = .ok ⟨none, false, none, .build a⟩ ∧ BuildOption.extensions.Occurs words ∧
      ∃ overrides, a.overrides = .ok overrides ∧
        (Settings.check ⟨"/W", [], []⟩ false (.obj (BuildArguments.mergeFields [] overrides))).map
          (·.1.extensions) = .ok [".rs"] ∧
        (Settings.check ⟨"/W", [], []⟩ false (.obj (BuildArguments.mergeFields
          [("extensions", .str ".md")] overrides))).map (·.1.extensions) = .ok [".md"] := by
  intro words a
  have hwords : understand words = .ok ⟨none, false, none, .build a⟩ := by decide +kernel
  exact ⟨hwords, (BuildOption.occurs_iff words _ a hwords rfl _).mpr rfl, _, rfl, by decide +kernel,
    by decide +kernel⟩

end CommandLine

end DocNavigation
