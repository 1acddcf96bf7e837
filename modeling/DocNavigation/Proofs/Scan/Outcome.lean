import DocNavigation.Proofs.Disk.Text
import DocNavigation.Proofs.Filter.Compiled
import DocNavigation.Proofs.Scan.Tree
import DocNavigation.Proofs.Tree.Confluence

/-!
What a scan ends in. Names of files may hold a backslash and names in trees may not; nothing else that
lies in a folder keeps a scan from its tree.
-/

namespace DocNavigation

namespace Disk

/-- Of the names that files can have, trees refuse those with a backslash. -/
theorem FileName.isSegment_iff (s : String) (h : FileName s) :
    Name.isSegment s = true ↔ '\\' ∉ s.toList := by
  rw [Name.isSegment_iff]
  exact ⟨fun hs => hs.2.2.2.2,
    fun hs => ⟨h.isName.full, h.isName.dot, h.isName.dots, h.isName.slash, hs⟩⟩

section
variable (d : Disk) (hd : d.Regular)
include hd

theorem Regular.fileNames (p : Place) (s : String) (e : DiskEntry)
    (h : d.at? (p ++ [s]) = some e) : ∀ t ∈ p ++ [s], FileName t :=
  hd.names _ ((mem_children_iff d p s e).mp ((hd.at?_iff d p s e).mp h))

/-- What is listed as a file has nothing below it. -/
theorem Regular.listsFile_last (p : Place) (s : String) (h : d.ListsFile p s) (rest : Place)
    (t : String) (e : DiskEntry) : d.at? (p ++ [s] ++ rest ++ [t]) ≠ some e := by
  intro hbelow
  obtain ⟨e', hat, hfile, -⟩ := h
  have hfolder := hd.wellFormed.prefix_folder d (p ++ [s]) _ (List.prefix_append _ rest)
    (hd.wellFormed.above _ _ _ hbelow)
  rw [hat] at hfolder
  exact hfile (Option.some.inj hfolder)

end

end Disk

namespace Scan

theorem checkPath_cases (path : List String) (hpath : path ≠ []) :
    (Name.checkPath (path.map .str) = .ok path ∧ ∀ s ∈ path, Name.isSegment s = true) ∨
    ∃ s ∈ path, Name.isSegment s = false ∧
      Name.checkPath (path.map .str) = .error (.invalid "tree" (.str s)) := by
  cases hcheck : Name.checkPath (path.map .str) with
  | ok segments =>
    have hsame := checkPath_str path segments hcheck
    subst hsame
    exact .inl ⟨rfl, (Name.segments_of_checkPath _ _ hcheck).2⟩
  | error e =>
    rw [Name.checkPath, if_neg (by simpa using hpath)] at hcheck
    obtain ⟨v, hv, he⟩ := Result.exists_error_of_mapM _ _ e hcheck
    obtain ⟨s, hs, rfl⟩ := List.mem_map.mp hv
    rw [Name.check] at he
    split at he
    case isTrue => cases he
    case isFalse hbad =>
      cases he
      exact .inr ⟨s, hs, by simpa using hbad, rfl⟩

/-- Paths of which none leads through another one all fit in, up to the first one with a segment that
is no name. -/
theorem insertAll_cases (n : String) (paths done : List (List String)) (t : Tree)
    (h : Tree.Filled n done t) (hfree : Tree.PrefixFree (done ++ paths))
    (hfull : ∀ p ∈ paths, p ≠ []) :
    ((∃ u, insertAll t paths = .ok u) ∧ ∀ p ∈ paths, ∀ s ∈ p, Name.isSegment s = true) ∨
    ∃ p ∈ paths, ∃ s ∈ p, Name.isSegment s = false ∧
      insertAll t paths = .error (.name (.invalid "tree" (.str s))) := by
  induction paths generalizing t done with
  | nil => exact .inl ⟨⟨t, rfl⟩, by simp⟩
  | cons p paths ih =>
    obtain ⟨hp, hfull⟩ := List.forall_mem_cons.mp hfull
    rw [insertAll, List.foldlM_cons]
    rcases checkPath_cases p hp with ⟨hcheck, hall⟩ | ⟨s, hs, hbad, hcheck⟩
    · have hsnoc : done ++ p :: paths = done ++ [p] ++ paths := by simp
      rw [hsnoc] at hfree
      have hfits := ((Tree.prefixFree_snoc done p).mp
        (hfree.mono _ _ (List.subset_append_left _ _))).2
      obtain ⟨u, hu⟩ := (Tree.insertFile_fits_iff n done t h p hp).mpr hfits
      rw [hcheck]
      simp only
      rw [hu]
      rcases ih (done ++ [p]) u (h.insert n done t p hp hall u hu) hfree hfull with
        ⟨hok, hnames⟩ | ⟨q, hq, s, hs, hbad, herror⟩
      · exact .inl ⟨hok, List.forall_mem_cons.mpr ⟨hall, hnames⟩⟩
      · exact .inr ⟨q, List.mem_cons_of_mem _ hq, s, hs, hbad, herror⟩
    · rw [hcheck]
      exact .inr ⟨p, List.mem_cons_self .., s, hs, hbad, rfl⟩

section
variable (d : Disk) (f : Filter) (hd : d.Regular) (root : Place)
include hd

theorem files_prefixFree : Tree.PrefixFree (files d f root) := by
  intro rel hrel rel' hrel' hstart
  obtain ⟨way, name, rfl, hfile, -⟩ := (mem_files_iff d f hd root rel).mp hrel
  obtain ⟨way', name', rfl, ⟨e, hat, -⟩, -⟩ := (mem_files_iff d f hd root rel').mp hrel'
  rcases List.prefix_concat_iff.mp hstart with hsame | ⟨rest, rfl⟩
  · exact hsame
  · refine absurd ?_ (Disk.Regular.listsFile_last d hd (root ++ way) name hfile rest name' e)
    simpa using hat

theorem files_names (rel : List String) (hrel : rel ∈ files d f root) :
    rel ≠ [] ∧ ∀ s ∈ rel, Disk.FileName s := by
  obtain ⟨way, name, rfl, ⟨e, hat, -⟩, -⟩ := (mem_files_iff d f hd root rel).mp hrel
  have hnames := hd.fileNames d (root ++ way) name e hat
  rw [List.append_assoc, List.forall_mem_append] at hnames
  exact ⟨by simp, hnames.2⟩

/-- A folder gives a tree, unless a backslash stands in a path that the walk finds. -/
theorem insertAll_files :
    ((∃ t, insertAll (.empty "") (files d f root) = .ok t) ∧
      ∀ rel ∈ files d f root, ∀ s ∈ rel, '\\' ∉ s.toList) ∨
    ∃ rel ∈ files d f root, ∃ s ∈ rel, '\\' ∈ s.toList ∧
      insertAll (.empty "") (files d f root) = .error (.name (.invalid "tree" (.str s))) := by
  have hsegment : ∀ rel ∈ files d f root, ∀ s ∈ rel, Name.isSegment s = true ↔ '\\' ∉ s.toList :=
    fun rel hrel s hs => Disk.FileName.isSegment_iff s ((files_names d f hd root rel hrel).2 s hs)
  rcases insertAll_cases "" (files d f root) [] (.empty "") (Tree.filled_empty "")
      (files_prefixFree d f hd root) fun rel hrel => (files_names d f hd root rel hrel).1 with
    ⟨hok, hnames⟩ | ⟨rel, hrel, s, hs, hbad, herror⟩
  · exact .inl ⟨hok, fun rel hrel s hs => (hsegment rel hrel s hs).mp (hnames rel hrel s hs)⟩
  · refine .inr ⟨rel, hrel, s, hs, ?_, herror⟩
    by_contra hnone
    rw [(hsegment rel hrel s hs).mpr hnone] at hbad
    cases hbad

end

/-- All patterns that are given are well formed. -/
def WellFormed (o : ScanOptions) : Prop :=
  ∀ text ∈ o.included.getD [] ++ o.excluded.getD [], ∃ n, Pattern.read text = .ok n

instance (o : ScanOptions) : Decidable (WellFormed o) :=
  decidable_of_iff (∀ text ∈ o.included.getD [] ++ o.excluded.getD [],
      (Pattern.read text).toOption.isSome = true) <| by
    refine forall₂_congr fun text _ => ?_
    cases Pattern.read text <;> simp [Except.toOption]

theorem usual_wellFormed :
    WellFormed { included := some Settings.usualIncluded, excluded := some Settings.usualExcluded } := by
  decide +kernel

section
variable (d : Disk) (o : ScanOptions) (ho : WellFormed o) (root : String)

theorem ignoredPatterns_of_isFile
    (h : d.isThere (Path.join root Ignored.fileName) = true →
      d.isFile (Path.join root Ignored.fileName) = true) :
    ∃ ignored, ignoredPatterns d root = .ok ignored ∧
      ∀ text ∈ ignored, ∃ n, Pattern.read text = .ok n := by
  cases hthere : d.isThere (Path.join root Ignored.fileName) with
  | false =>
    refine ⟨[], ?_, by simp⟩
    simp [ignoredPatterns, hthere]
  | true =>
    obtain ⟨bytes, hbytes⟩ := Disk.exists_bytes d _ (h hthere)
    refine ⟨_, Ignored.ignoredPatterns_of_bytes d root bytes hbytes, fun text htext => ?_⟩
    obtain ⟨line, -, -, rfl⟩ := (Ignored.mem_patterns bytes text).mp htext
    exact ⟨_, Ignored.read_pattern line⟩

include ho in
theorem includedTexts_wellFormed : ∀ text ∈ includedTexts o, ∃ n, Pattern.read text = .ok n := by
  intro text htext
  have husual : text ∈ Settings.usualIncluded → ∃ n, Pattern.read text = .ok n :=
    fun h => usual_wellFormed text (List.mem_append_left _ h)
  rw [includedTexts] at htext
  split at htext
  · exact husual htext
  · exact husual htext
  case h_3 patterns _ hpatterns =>
    exact ho text (List.mem_append_left _ (by rwa [hpatterns]))

include ho in
theorem excluded_wellFormed : ∀ text ∈ o.excluded.getD Settings.usualExcluded,
    ∃ n, Pattern.read text = .ok n := by
  intro text htext
  cases hexcluded : o.excluded with
  | none =>
    rw [hexcluded] at htext
    exact usual_wellFormed text (List.mem_append_right _ htext)
  | some patterns =>
    rw [hexcluded] at htext
    exact ho text (List.mem_append_right _ (by rwa [hexcluded]))

include ho in
theorem filterFor_of_wellFormed
    (hignored : o.respectIgnored = true → d.isThere (Path.join root Ignored.fileName) = true →
      d.isFile (Path.join root Ignored.fileName) = true) :
    ∃ f, filterFor d o root = .ok f := by
  obtain ⟨ignored, hread, hpatterns⟩ : ∃ ignored,
      (if o.respectIgnored then ignoredPatterns d root else .ok []) = .ok ignored ∧
      ∀ text ∈ ignored, ∃ n, Pattern.read text = .ok n := by
    cases hrespect : o.respectIgnored with
    | false => exact ⟨[], rfl, by simp⟩
    | true => exact ignoredPatterns_of_isFile d root (hignored hrespect)
  obtain ⟨included, hincluded⟩ := Filter.compileAll_of_read _ (includedTexts_wellFormed o ho)
  obtain ⟨excluded, hexcluded⟩ := Filter.compileAll_of_read
    (o.excluded.getD Settings.usualExcluded ++ ignored)
    (List.forall_mem_append.mpr ⟨excluded_wellFormed o ho, hpatterns⟩)
  refine ⟨⟨o.extensions.getD Settings.usualExtensions, included, excluded⟩, ?_⟩
  rw [filterFor_eq, hread]
  change filterWith o ignored = _
  rw [filterWith, hincluded, hexcluded]
  rfl

end

/-- The path of a file that is to be listed, where these patterns keep out. -/
def IsListed (d : Disk) (o : ScanOptions) (p : Place) (texts rel : List String) : Prop :=
  ∃ way name, rel = way ++ [name] ∧ d.ListsFile (p ++ way) name ∧
    (∀ s ∈ rel, ¬ Filter.IsFound texts s) ∧ Filter.IsFound (includedTexts o) name ∧
    Filter.hasExtension (o.extensions.getD Settings.usualExtensions) name = true

/-- The scan of a folder gives a tree, or a backslash stands in the path of a file that is to be
listed and is what the scan stops at. -/
theorem tree_or_backslash (d : Disk) (hd : d.Regular) (o : ScanOptions) (ho : WellFormed o)
    (path : String) (hpath : d.isFolder (d.absolute path) = true)
    (hignored : o.respectIgnored = true →
      d.isThere (Path.join (d.absolute path) Ignored.fileName) = true →
      d.isFile (Path.join (d.absolute path) Ignored.fileName) = true) :
    ∃ p texts, d.resolve true (d.absolute path) = .ok (.entry p .folder) ∧
      KeepsOut d o (d.absolute path) texts ∧
      (((∃ t, tree d o path = .ok t) ∧
          ∀ rel, IsListed d o p texts rel → ∀ s ∈ rel, '\\' ∉ s.toList) ∨
        ∃ rel s, IsListed d o p texts rel ∧ s ∈ rel ∧ '\\' ∈ s.toList ∧
          tree d o path = .error (.tree (.name (.invalid "tree" (.str s))))) := by
  obtain ⟨p, hp⟩ := (Disk.isFolder_iff d _).mp hpath
  obtain ⟨f, hf⟩ := filterFor_of_wellFormed d o ho (d.absolute path) hignored
  obtain ⟨texts, htexts, hrejects, haccepts⟩ := filterFor_ok d o _ f hf
  have hlisted : ∀ rel, rel ∈ files d f p ↔ IsListed d o p texts rel :=
    mem_files_iff_isFound d hd o p f texts hrejects haccepts
  have htree : tree d o path = (insertAll (.empty "") (files d f p)).mapError .tree := by
    unfold tree
    extract_lets root
    change d.resolve true root = _ at hp
    change filterFor d o root = _ at hf
    rw [hp, hf]
    rfl
  refine ⟨p, texts, hp, htexts, ?_⟩
  rw [htree]
  rcases insertAll_files d f hd p with ⟨⟨t, ht⟩, hnone⟩ | ⟨rel, hrel, s, hs, hslash, herror⟩
  · exact .inl ⟨⟨t, by rw [ht]; rfl⟩, fun rel hrel => hnone rel ((hlisted rel).mpr hrel)⟩
  · exact .inr ⟨rel, s, (hlisted rel).mp hrel, hs, hslash, by rw [herror]; rfl⟩

theorem tree_or_backslash_workshop : ∃ p texts,
    workshop.resolve true (workshop.absolute "/src") = .ok (.entry p .folder) ∧
    KeepsOut workshop { excluded := some [] } (workshop.absolute "/src") texts ∧
    (((∃ t, tree workshop { excluded := some [] } "/src" = .ok t) ∧
        ∀ rel, IsListed workshop { excluded := some [] } p texts rel → ∀ s ∈ rel, '\\' ∉ s.toList) ∨
      ∃ rel s, IsListed workshop { excluded := some [] } p texts rel ∧ s ∈ rel ∧ '\\' ∈ s.toList ∧
        tree workshop { excluded := some [] } "/src" =
          .error (.tree (.name (.invalid "tree" (.str s))))) :=
  tree_or_backslash workshop workshop_regular { excluded := some [] } (by decide +kernel) "/src"
    (by decide +kernel) (by decide +kernel)

/-- Two sources, of which one has a backslash in its name. -/
def backslashed : Disk :=
  ⟨[], [(["src"], .folder), (["src", "a\\b.rs"], .file ⟨#[]⟩), (["src", "lib"], .folder),
    (["src", "lib", "c.rs"], .file ⟨#[]⟩)], []⟩

/-- One such name costs the whole tree. -/
theorem tree_fails_backslashed : backslashed.Regular ∧
    backslashed.isFolder (backslashed.absolute "/src") = true ∧
    backslashed.isThere (Path.join "/src" Ignored.fileName) = false ∧
    tree backslashed { excluded := some [] } "/src" =
      .error (.tree (.name (.invalid "tree" (.str "a\\b.rs")))) := by
  refine ⟨⟨Disk.wellFormed_of_entries backslashed (by decide) rfl, by decide, by decide +kernel⟩, ?_⟩
  decide +kernel

end Scan

end DocNavigation
