import DocNavigation.Filter.Basic
import DocNavigation.Proofs.Path.Plain
import DocNavigation.Proofs.Settings.Reread

/-!
The extensions of the settings as the filter of a scan reads them: an entry there is an extension or a
whole name. A check leaves out blank entries and writes a dot before each that has none, so that a
list with names of whole files can hide them once it has been checked.
-/

namespace DocNavigation

namespace Path

/-- An extension begins with its dot. -/
theorem startsWith_extension (name : String) :
    extension name = "" ∨ Text.startsWith "." (extension name) = true := by
  unfold extension
  extract_lets last tail stem
  split
  case isTrue =>
    refine .inr ?_
    clear_value tail
    change ['.'].isPrefixOf (String.ofList ('.' :: tail)).toList = true
    rw [String.toList_ofList]
    rfl
  case isFalse => exact .inl rfl

end Path

namespace Filter

theorem hasExtension_iff (extensions : List String) (name : String) :
    hasExtension extensions name = true ↔
      extensions = [] ∨ Path.extension name ∈ extensions ∨ name ∈ extensions := by
  simp [hasExtension, or_assoc]

end Filter

namespace Settings

open Judging

theorem withDot_of_startsWith (text : String) (h : Text.startsWith "." text = true) :
    withDot text = text :=
  if_pos h

theorem withDot_ne (text other : String) (h : Text.startsWith "." other = false) :
    withDot text ≠ other := by
  rintro rfl
  rw [startsWith_withDot] at h
  cases h

/-- The extensions that a check makes of a list of trimmed texts. -/
def normalExtensions (extensions : List String) : List String :=
  dotted (extensions.filter (· ≠ ""))

theorem mem_normalExtensions (extensions : List String) (text : String) :
    text ∈ normalExtensions extensions ↔ ∃ entry ∈ extensions, entry ≠ "" ∧ withDot entry = text := by
  simp [normalExtensions, dotted, and_assoc]

theorem normalExtensions_eq_nil_iff (extensions : List String) :
    normalExtensions extensions = [] ↔ ∀ entry ∈ extensions, entry = "" := by
  rw [List.eq_nil_iff_forall_not_mem]
  simp only [mem_normalExtensions, not_exists, not_and]
  constructor
  · intro h entry hentry
    by_contra hfull
    exact h _ entry hentry hfull rfl
  · intro h _ entry hentry hfull
    exact absurd (h entry hentry) hfull

theorem hasExtension_normalExtensions (extensions : List String) (name : String) :
    Filter.hasExtension (normalExtensions extensions) name = true ↔
      (∀ entry ∈ extensions, entry = "") ∨ ∃ entry ∈ extensions, entry ≠ "" ∧
        (withDot entry = Path.extension name ∨ withDot entry = name) := by
  rw [Filter.hasExtension_iff, normalExtensions_eq_nil_iff, mem_normalExtensions, mem_normalExtensions]
  simp only [← exists_or, ← and_or_left]

/-- An entry that begins with a dot lets the same names pass as before. -/
theorem hasExtension_of_dotted (extensions : List String) (name entry : String)
    (hentry : entry ∈ extensions) (hdot : Text.startsWith "." entry = true)
    (h : entry = Path.extension name ∨ entry = name) :
    Filter.hasExtension (normalExtensions extensions) name = true := by
  have hfull : entry ≠ "" := by
    rintro rfl
    cases hdot
  refine (hasExtension_normalExtensions extensions name).mpr (.inr ⟨entry, hentry, hfull, ?_⟩)
  rwa [withDot_of_startsWith entry hdot]

/-- A check hides no name but one without an extension, which a blank entry let pass, and one that is
listed itself and does not begin with a dot. -/
theorem hasExtension_kept (extensions : List String) (name : String)
    (h : Filter.hasExtension extensions name = true) :
    Filter.hasExtension (normalExtensions extensions) name = true ∨
      ("" ∈ extensions ∧ Path.extension name = "") ∨
      (name ∈ extensions ∧ Text.startsWith "." name = false) := by
  rcases (Filter.hasExtension_iff extensions name).mp h with rfl | hextension | hname
  · exact .inl h
  · rcases Path.startsWith_extension name with hnone | hdot
    · exact .inr (.inl ⟨hnone ▸ hextension, hnone⟩)
    · exact .inl (hasExtension_of_dotted extensions name _ hextension hdot (.inl rfl))
  · cases hdot : Text.startsWith "." name with
    | true => exact .inl (hasExtension_of_dotted extensions name name hname hdot (.inr rfl))
    | false => exact .inr (.inr ⟨hname, rfl⟩)

/-- The lists of which a check hides nothing: each name in them begins with a dot, or has an extension
that is listed besides. -/
theorem hides_nothing_iff (extensions : List String) :
    (∀ name, Path.IsName name → Filter.hasExtension extensions name = true →
      Filter.hasExtension (normalExtensions extensions) name = true) ↔
    (∀ entry ∈ extensions, entry = "") ∨
      ("" ∉ extensions ∧ ∀ name ∈ extensions, Path.IsName name →
        Text.startsWith "." name = true ∨
          ∃ entry ∈ extensions, withDot entry = Path.extension name) := by
  constructor
  · intro h
    rw [or_iff_not_imp_left]
    intro hsome
    constructor
    · intro hblank
      -- a name without a dot passes by the blank entry and by no entry with a dot
      have hname : Path.IsName "a" := ⟨by decide, by decide, by decide, by decide⟩
      have hpass := h "a" hname ((Filter.hasExtension_iff _ _).mpr (.inr (.inl hblank)))
      rcases (hasExtension_normalExtensions extensions "a").mp hpass with hall | ⟨entry, -, -, heq⟩
      · exact hsome hall
      · exact heq.elim (withDot_ne entry _ (by decide)) (withDot_ne entry _ (by decide))
    · intro name hmem hname
      have hpass := h name hname ((Filter.hasExtension_iff _ _).mpr (.inr (.inr hmem)))
      rcases (hasExtension_normalExtensions extensions name).mp hpass with
        hall | ⟨entry, hentry, -, hextension | heq⟩
      · exact absurd hall hsome
      · exact .inr ⟨entry, hentry, hextension⟩
      · exact .inl (heq ▸ startsWith_withDot entry)
  · intro h name hname hpass
    rcases hasExtension_kept extensions name hpass with hkept | hlost
    · exact hkept
    · rw [hasExtension_normalExtensions]
      refine h.imp_right fun ⟨hblank, hall⟩ => ?_
      obtain ⟨hmem, hdot⟩ := hlost.resolve_left fun hnone => hblank hnone.1
      rcases hall name hmem hname with hdot' | ⟨entry, hentry, hextension⟩
      · exact absurd (hdot.symm.trans hdot') (by decide)
      · exact ⟨entry, hentry, fun hempty => hblank (hempty ▸ hentry), .inl hextension⟩

/-- A check of a list of extensions alone gives these extensions and warns of nothing. -/
theorem gives_extensions (env : Environment) (strict : Bool) (extensions : List String)
    (hwork : Path.isRooted env.workdir = true) (htrim : ∀ text ∈ extensions, Text.trim text = text) :
    (checkFields env strict [("extensions", .strings extensions)]).Gives
      { usual env.workdir with
        outputPath := Path.reread env (usual env.workdir).outputPath
        extensions := normalExtensions extensions } := by
  have htexts := gives_listedTexts strict "extensions" (usual env.workdir).extensions extensions
  rw [(map_eq_self_iff _ _).mpr htrim] at htexts
  have houtput := gives_located env (usual env.workdir).outputPath (usual env.workdir).outputPath
    (Path.isRooted_trim _ (isRooted_usual env.workdir hwork))
  unfold checkFields
  iterate 7 refine .bind _ _ _ _ (.pure _) ?_
  refine .bind _ _ _ _ htexts ?_
  iterate 4 refine .bind _ _ _ _ (.pure _) ?_
  refine .bind _ _ _ _ houtput ?_
  iterate 3 refine .bind _ _ _ _ (.pure _) ?_
  exact .pure _

/-- Which names pass a list of extensions after a check of it, which of them can be lost, and which
lists lose none. -/
theorem extensions_checked (env : Environment) (strict : Bool) (extensions : List String)
    (hwork : Path.isRooted env.workdir = true) (htrim : ∀ text ∈ extensions, Text.trim text = text) :
    ∃ s, check env strict (.obj [("extensions", .strings extensions)]) = .ok (s, []) ∧
      (∀ name, Filter.hasExtension s.extensions name = true ↔
        (∀ entry ∈ extensions, entry = "") ∨ ∃ entry ∈ extensions, entry ≠ "" ∧
          (withDot entry = Path.extension name ∨ withDot entry = name)) ∧
      (∀ name, Filter.hasExtension extensions name = true →
        Filter.hasExtension s.extensions name = true ∨
          ("" ∈ extensions ∧ Path.extension name = "") ∨
          (name ∈ extensions ∧ Text.startsWith "." name = false)) ∧
      ((∀ name, Path.IsName name → Filter.hasExtension extensions name = true →
          Filter.hasExtension s.extensions name = true) ↔
        (∀ entry ∈ extensions, entry = "") ∨
          ("" ∉ extensions ∧ ∀ name ∈ extensions, Path.IsName name →
            Text.startsWith "." name = true ∨
              ∃ entry ∈ extensions, withDot entry = Path.extension name)) :=
  ⟨_, gives_extensions env strict extensions hwork htrim [], hasExtension_normalExtensions extensions,
    hasExtension_kept extensions, hides_nothing_iff extensions⟩

/-- Names of whole files are hidden by the check but for one with an extension of the list. -/
theorem extensions_checked_mixed :
    let extensions := ["Makefile", "rs", "main.rs", ".gitignore"]
    ∃ s, check { workdir := "/W", vars := [] } true (.obj [("extensions", .strings extensions)]) =
        .ok (s, []) ∧
      (∀ name ∈ ["lib.rs", "main.rs", ".gitignore"], Filter.hasExtension s.extensions name = true) ∧
      ¬ ∀ name, Path.IsName name → Filter.hasExtension extensions name = true →
        Filter.hasExtension s.extensions name = true := by
  intro extensions
  obtain ⟨s, hcheck, hpass, -, hnothing⟩ := extensions_checked { workdir := "/W", vars := [] } true
    extensions (by decide) (by decide +kernel)
  refine ⟨s, hcheck, ?_, ?_⟩
  · simp only [hpass]
    decide +kernel
  · rw [hnothing]
    rintro (hall | ⟨-, hall⟩)
    · exact absurd (hall "Makefile" (by decide)) (by decide)
    · have hname : Path.IsName "Makefile" := ⟨by decide, by decide, by decide, by decide⟩
      exact absurd (hall "Makefile" (by decide) hname) (by decide +kernel)

/-- A name that is listed passes the list as it is written, and not as it was checked. -/
theorem listed_name_hidden :
    let extensions := ["Makefile"]
    ∃ s, (∀ strict, check { workdir := "/W", vars := [] } strict
        (.obj [("extensions", .strings extensions)]) = .ok (s, [])) ∧
      (∀ text ∈ extensions, Text.trim text = text) ∧
      Filter.hasExtension extensions "Makefile" = true ∧
      Filter.hasExtension s.extensions "Makefile" = false :=
  ⟨{ usual "/W" with extensions := [".Makefile"] }, by decide +kernel, by decide +kernel,
    by decide +kernel, by decide +kernel⟩

end Settings

end DocNavigation
