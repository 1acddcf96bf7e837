import DocNavigation.Proofs.Scan.Tree

/-!
Scans with texts that are no patterns. A malformed one counts for nothing, unless nothing else was to
let names in: then no name gets in, where an empty list would count as none given. Any other text
without a pattern costs the whole scan.
-/

namespace DocNavigation

namespace Filter

theorem compileAll_error (texts : List String) (e : Pattern.ReadError)
    (h : texts.findSome? barring? = some e) : Scan.compileAll texts = .error (.pattern e) := by
  rw [compileAll_eq, h]

/-- The texts without patterns can be left out of a list that nothing bars, whatever comes after. -/
theorem compileAll_accepted_append (texts more : List String)
    (h : texts.findSome? barring? = none) :
    Scan.compileAll (accepted texts ++ more) = Scan.compileAll (texts ++ more) := by
  simp only [compileAll_eq, List.findSome?_append, List.filterMap_append, filterMap_accepted,
    findSome?_accepted, h]

theorem compileAll_accepted (texts : List String) (h : texts.findSome? barring? = none) :
    Scan.compileAll (accepted texts) = Scan.compileAll texts := by
  simpa using compileAll_accepted_append texts [] h

end Filter

namespace Scan

open DocNavigation.Filter (accepted readied? barring?)

/-- The patterns that are given for a scan. -/
def givenTexts (o : ScanOptions) : List String :=
  o.included.getD [] ++ o.excluded.getD []

/-- The options without the texts that have no patterns. -/
def withAccepted (o : ScanOptions) : ScanOptions :=
  { o with included := o.included.map accepted, excluded := o.excluded.map accepted }

/-- There are texts for patterns to let names in, and none of them has one. -/
def LetsNoneIn (o : ScanOptions) : Prop :=
  o.included.getD [] ≠ [] ∧ accepted (o.included.getD []) = []

section
variable (o : ScanOptions)

theorem includedTexts_eq : includedTexts o =
    if o.included.getD [] = [] then Settings.usualIncluded else o.included.getD [] := by
  unfold includedTexts
  match o.included with
  | none | some [] => rfl
  | some (_ :: _) => rfl

theorem getD_withAccepted :
    (withAccepted o).included.getD [] = accepted (o.included.getD []) := by
  cases h : o.included <;> simp [withAccepted, h, accepted]

theorem barring_includedTexts (h : (o.included.getD []).findSome? barring? = none) :
    (includedTexts o).findSome? barring? = none := by
  rw [includedTexts_eq]
  split
  · decide +kernel
  · exact h

theorem compileAll_included (h : (o.included.getD []).findSome? barring? = none)
    (hin : ¬ LetsNoneIn o) :
    compileAll (includedTexts (withAccepted o)) = compileAll (includedTexts o) := by
  rw [includedTexts_eq, includedTexts_eq, getD_withAccepted]
  by_cases hnone : o.included.getD [] = []
  · rw [if_pos hnone, hnone]
    rfl
  · have hsome : accepted (o.included.getD []) ≠ [] := fun hempty => hin ⟨hnone, hempty⟩
    rw [if_neg hnone, if_neg hsome, Filter.compileAll_accepted _ h]

theorem compileAll_excluded (ignored : List String)
    (h : (o.excluded.getD []).findSome? barring? = none) :
    compileAll ((withAccepted o).excluded.getD Settings.usualExcluded ++ ignored) =
      compileAll (o.excluded.getD Settings.usualExcluded ++ ignored) := by
  cases hexcluded : o.excluded with
  | none => simp [withAccepted, hexcluded]
  | some texts =>
    rw [hexcluded] at h
    simpa [withAccepted, hexcluded] using Filter.compileAll_accepted_append texts ignored h

theorem filterWith_accepted (ignored : List String)
    (h : (givenTexts o).findSome? barring? = none) (hin : ¬ LetsNoneIn o) :
    filterWith (withAccepted o) ignored = filterWith o ignored := by
  rw [givenTexts, List.findSome?_append, Option.or_eq_none_iff] at h
  rw [filterWith, filterWith, compileAll_included o h.1 hin, compileAll_excluded o ignored h.2]
  rfl

theorem filterWith_eq_ok_iff (ignored : List String) (f : Filter) :
    filterWith o ignored = .ok f ↔ ∃ included excluded,
      compileAll (includedTexts o) = .ok included ∧
      compileAll (o.excluded.getD Settings.usualExcluded ++ ignored) = .ok excluded ∧
      f = ⟨o.extensions.getD Settings.usualExtensions, included, excluded⟩ := by
  rw [filterWith]
  simp only [Result.bind_eq_ok_iff]
  constructor
  · rintro ⟨included, hincluded, excluded, hexcluded, ⟨⟩⟩
    exact ⟨included, excluded, hincluded, hexcluded, rfl⟩
  · rintro ⟨included, excluded, hincluded, hexcluded, rfl⟩
    exact ⟨included, hincluded, excluded, hexcluded, rfl⟩

/-- A filter fails at the first text that bars a list. -/
theorem filterWith_error (ignored : List String) (e : Pattern.ReadError)
    (h : (givenTexts o).findSome? barring? = some e) :
    filterWith o ignored = .error (.pattern e) := by
  rw [givenTexts, List.findSome?_append, Option.or_eq_some_iff] at h
  rw [filterWith]
  -- the patterns that let in have their turn first, and the usual ones bar nothing
  rcases h with hin | ⟨hin, hout⟩
  · have hfull : o.included.getD [] ≠ [] := by
      intro hnone
      rw [hnone] at hin
      cases hin
    rw [includedTexts_eq, if_neg hfull, Filter.compileAll_error _ e hin]
    rfl
  · obtain ⟨included, hincluded⟩ : ∃ included, compileAll (includedTexts o) = .ok included :=
      ⟨_, (Filter.compileAll_eq_ok_iff _ _).mpr ⟨barring_includedTexts o hin, rfl⟩⟩
    have hexcluded : (o.excluded.getD Settings.usualExcluded ++ ignored).findSome? barring? =
        some e := by
      cases hgiven : o.excluded with
      | none =>
        rw [hgiven] at hout
        cases hout
      | some texts =>
        rw [hgiven] at hout
        rw [List.findSome?_append, Option.or_eq_some_iff]
        exact .inl hout
    rw [hincluded, Filter.compileAll_error _ e hexcluded]
    rfl

theorem barring_of_filterWith (ignored : List String) (f : Filter)
    (h : filterWith o ignored = .ok f) : (givenTexts o).findSome? barring? = none := by
  cases hbarred : (givenTexts o).findSome? barring? with
  | none => rfl
  | some e =>
    rw [filterWith_error o ignored e hbarred] at h
    cases h

/-- Texts that all are no patterns let nothing in. -/
theorem included_of_letsNoneIn (ignored : List String) (f : Filter) (hin : LetsNoneIn o)
    (h : filterWith o ignored = .ok f) : f.included = [] := by
  obtain ⟨included, excluded, hincluded, -, rfl⟩ := (filterWith_eq_ok_iff o ignored f).mp h
  rw [includedTexts_eq, if_neg hin.1, Filter.compileAll_eq_ok_iff, ← Filter.filterMap_accepted,
    hin.2] at hincluded
  exact hincluded.2.symm

/-- The filter of a scan, when it has one without the texts that have no patterns. -/
theorem exists_filterWith (ignored : List String) (f : Filter)
    (h : (givenTexts o).findSome? barring? = none)
    (hf : filterWith (withAccepted o) ignored = .ok f) : ∃ f', filterWith o ignored = .ok f' := by
  rw [givenTexts, List.findSome?_append, Option.or_eq_none_iff] at h
  obtain ⟨_, excluded, -, hexcluded, -⟩ := (filterWith_eq_ok_iff _ ignored f).mp hf
  rw [compileAll_excluded o ignored h.2] at hexcluded
  obtain ⟨included, hincluded⟩ : ∃ included, compileAll (includedTexts o) = .ok included :=
    ⟨_, (Filter.compileAll_eq_ok_iff _ _).mpr ⟨barring_includedTexts o h.1, rfl⟩⟩
  exact ⟨_, (filterWith_eq_ok_iff o ignored _).mpr ⟨included, excluded, hincluded, hexcluded, rfl⟩⟩

end

theorem filesBelow_of_no_included (d : Disk) (f : Filter) (h : f.included = []) (fuel : Nat)
    (p : Place) (above : List String) : filesBelow d f fuel p above = [] := by
  have haccepts : ∀ s, f.accepts s = false := by
    intro s
    simp [Filter.accepts, h, Filter.matchesAny]
  induction fuel generalizing p above with
  | zero => rfl
  | succ fuel ih =>
    have hnone : (fileNames d p).filter f.accepts = [] := by simp [haccepts]
    simp only [filesBelow, hnone, ih, List.map_nil, List.nil_append, List.flatMap_eq_nil_iff,
      implies_true]

section
variable (d : Disk) (o : ScanOptions) (path : String)

theorem filterFor_eq_ok_iff (root : String) (f : Filter) : filterFor d o root = .ok f ↔
    ∃ ignored, (if o.respectIgnored then ignoredPatterns d root else .ok []) = .ok ignored ∧
      filterWith o ignored = .ok f := by
  rw [filterFor_eq, Result.bind_eq_ok_iff]

theorem tree_of_folder (p : Place)
    (h : d.resolve true (d.absolute path) = .ok (.entry p .folder)) : tree d o path =
      filterFor d o (d.absolute path) >>= fun f =>
        (insertAll (.empty "") (files d f p)).mapError .tree := by
  unfold tree
  extract_lets root
  change d.resolve true root = _ at h
  rw [h]

/-- The options have no part in a scan but through the filter. -/
theorem tree_congr (o' : ScanOptions)
    (h : filterFor d o (d.absolute path) = filterFor d o' (d.absolute path)) :
    tree d o path = tree d o' path := by
  unfold tree
  extract_lets root
  change filterFor d o root = _ at h
  rw [h]

theorem tree_accepted (h : (givenTexts o).findSome? barring? = none) (hin : ¬ LetsNoneIn o) :
    tree d o path = tree d (withAccepted o) path := by
  refine tree_congr d o path _ ?_
  have hwith : filterWith (withAccepted o) = filterWith o :=
    funext fun ignored => filterWith_accepted o ignored h hin
  have hrespect : (withAccepted o).respectIgnored = o.respectIgnored := rfl
  rw [filterFor_eq, filterFor_eq, hwith, hrespect]

/-- What the two scans of a folder that can be scanned have in common. -/
theorem exists_filterFor (t : Tree) (h : tree d (withAccepted o) path = .ok t) : ∃ p ignored f,
    d.resolve true (d.absolute path) = .ok (.entry p .folder) ∧
    filterFor d o (d.absolute path) = filterWith o ignored ∧
    filterWith (withAccepted o) ignored = .ok f := by
  obtain ⟨p, f, hp, hf, -⟩ := tree_ok d (withAccepted o) path t h
  obtain ⟨ignored, hignored, hf⟩ := (filterFor_eq_ok_iff d _ _ f).mp hf
  have hsame : (if o.respectIgnored then ignoredPatterns d (d.absolute path) else .ok []) =
      .ok ignored := hignored
  refine ⟨p, ignored, f, hp, ?_, hf⟩
  rw [filterFor_eq, hsame]
  rfl

theorem tree_barred (e : Pattern.ReadError) (h : (givenTexts o).findSome? barring? = some e) :
    (∀ t, tree d o path ≠ .ok t) ∧
      ∀ t, tree d (withAccepted o) path = .ok t → tree d o path = .error (.pattern e) := by
  constructor
  · intro t htree
    obtain ⟨p, f, -, hf, -⟩ := tree_ok d o path t htree
    obtain ⟨ignored, -, hf⟩ := (filterFor_eq_ok_iff d o _ f).mp hf
    rw [barring_of_filterWith o ignored f hf] at h
    cases h
  · intro t htree
    obtain ⟨p, ignored, f, hp, hfilter, -⟩ := exists_filterFor d o path t htree
    rw [tree_of_folder d o path p hp, hfilter, filterWith_error o ignored e h]
    rfl

theorem tree_letsNoneIn (h : (givenTexts o).findSome? barring? = none) (hin : LetsNoneIn o) :
    (∀ t, tree d o path = .ok t → t = .empty "") ∧
      ∀ t, tree d (withAccepted o) path = .ok t → tree d o path = .ok (.empty "") := by
  have hnothing : ∀ p f, f.included = [] → insertAll (.empty "") (files d f p) = .ok (.empty "") := by
    intro p f hf
    rw [files, filesBelow_of_no_included d f hf]
    rfl
  constructor
  · intro t htree
    obtain ⟨p, f, -, hf, hinsert⟩ := tree_ok d o path t htree
    obtain ⟨ignored, -, hf⟩ := (filterFor_eq_ok_iff d o _ f).mp hf
    rw [hnothing p f (included_of_letsNoneIn o ignored f hin hf)] at hinsert
    exact (Except.ok.inj hinsert).symm
  · intro t htree
    obtain ⟨p, ignored, f, hp, hfilter, hf⟩ := exists_filterFor d o path t htree
    obtain ⟨f', hf'⟩ := exists_filterWith o ignored f h hf
    rw [tree_of_folder d o path p hp, hfilter, hf']
    change (insertAll (.empty "") (files d f' p)).mapError Fault.tree = _
    rw [hnothing p f' (included_of_letsNoneIn o ignored f' hin hf')]
    rfl

end

end Scan

end DocNavigation
