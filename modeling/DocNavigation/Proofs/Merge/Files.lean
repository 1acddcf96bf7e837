import DocNavigation.Build.Run
import DocNavigation.Proofs.Merge.Staged
import DocNavigation.Proofs.Sources.Loaded

/-!
Merging files in stages. Each group of artifacts is merged into a new file, and these files are
merged after that: the outcome is that of merging all artifacts at once.
-/

namespace DocNavigation.MergeFiles

/-- The result without what it tells about the number of its sources. -/
def essence (r : BuildResult) : BuildResult :=
  { r with replaced := [], summary := [] }

theorem run_finish (r : Registry) (out : String) (result : BuildResult) (h : Host) :
    (finish r out result).run h = match (Artifact.write r out).run h with
      | (.ok path, h') => (.ok { result with artifactPath := path }, h')
      | (.error e, h') =>
        if e.isRefusal then
          (.ok (.failure s!"Failed to write artifact: {e.message}" result.failures result.summary), h')
        else (.error e, h') := by
  rw [finish, Effect.run_bind, Act.run_attempt]
  cases (Artifact.write r out).run h with
  | mk written h' =>
    cases written with
    | ok path => rfl
    | error e =>
      cases hrefusal : e.isRefusal with
      | false =>
        simp only [hrefusal]
        rfl
      | true =>
        simp only [hrefusal]
        rfl

/-- Two results that differ only in what they tell about the sources end alike. -/
theorem finish_congr (r : Registry) (out : String) (result result' : BuildResult) (h h' : Host)
    (hresult : essence result = essence result') (hdisk : h.disk = h'.disk) :
    ((finish r out result).run h).1.map essence = ((finish r out result').run h').1.map essence ∧
      ((finish r out result).run h).2.disk = ((finish r out result').run h').2.disk := by
  obtain ⟨hwritten, hafter⟩ := Artifact.diskOnly_write r out h h' hdisk
  rw [run_finish, run_finish]
  cases hh : (Artifact.write r out).run h with
  | mk written k =>
    cases hh' : (Artifact.write r out).run h' with
    | mk written' k' =>
      rw [hh, hh'] at hwritten hafter
      simp only at hwritten hafter
      subst hwritten
      refine ⟨?_, ?_⟩
      · cases written with
        | ok path =>
          exact congrArg (fun r : BuildResult => Except.ok { r with artifactPath := path }) hresult
        | error e =>
          have hfailures : (essence result).failures = (essence result').failures := by rw [hresult]
          change result.failures = result'.failures at hfailures
          simp only [hfailures]
          split
          · rfl
          · rfl
      · cases written with
        | ok path => exact hafter
        | error e =>
          simp only
          split
          · exact hafter
          · exact hafter

theorem finish_ok (r : Registry) (out : String) (result result' : BuildResult) (h h' : Host)
    (hok : result'.ok = true) (hrun : (finish r out result).run h = (.ok result', h')) :
    (Artifact.write r out).run h = (.ok result'.artifactPath, h') ∧
      result' = { result with artifactPath := result'.artifactPath } := by
  rw [run_finish] at hrun
  split at hrun
  case h_1 path h₁ hwritten =>
    cases hrun
    exact ⟨hwritten, rfl⟩
  case h_2 e h₁ _ =>
    split at hrun
    · cases hrun
      cases hok
    · cases hrun

/-- The merge of files that hold artifacts is that of their registries. -/
theorem run_loaded (sources : List String) (rs : List Registry) (out : String) (p : Priority)
    (h : Host) (hrs : List.Forall₂ (Sources.Holds h.disk) sources rs) (hne : rs ≠ []) :
    ∃ result h₁, h₁.disk = h.disk ∧
      essence result =
        { ok := true
          error := ""
          artifactPath := out
          units := (merge rs p).registry.names } ∧
      (run sources out p.word false).run h = (finish (merge rs p).registry out result).run h₁ := by
  obtain ⟨h₁, hload, hd₁⟩ := Sources.run_load sources rs h hrs
  have hsome : rs.isEmpty = false := by
    cases rs with
    | nil => exact absurd rfl hne
    | cons r rs => rfl
  rw [run, Effect.run_bind, hload]
  simp only [hsome, Bool.false_eq_true, if_false]
  rw [Effect.run_bind, Merge.run_mergeAll]
  refine ⟨_, { h₁ with journal := h₁.journal ++ (merge rs p).notes }, hd₁, ?_, rfl⟩
  rfl

/-- A merge goes well wherever its artifact can be written. -/
theorem run_of_write (sources : List String) (rs : List Registry) (out path : String) (p : Priority)
    (h k : Host) (hrs : List.Forall₂ (Sources.Holds h.disk) sources rs) (hne : rs ≠ [])
    (hk : h.disk = k.disk)
    (hwrite : ((Artifact.write (merge rs p).registry out).run k).1 = .ok path) :
    ∃ result h', (run sources out p.word false).run h = (.ok result, h') ∧ result.ok = true ∧
      result.artifactPath = path ∧
      h'.disk = ((Artifact.write (merge rs p).registry out).run k).2.disk := by
  obtain ⟨result, h₁, hd₁, hessence, hrun⟩ := run_loaded sources rs out p h hrs hne
  obtain ⟨hsame, hdisk⟩ := Artifact.diskOnly_write (merge rs p).registry out h₁ k (hd₁.trans hk)
  rw [hwrite] at hsame
  rw [run_finish] at hrun
  cases hw : (Artifact.write (merge rs p).registry out).run h₁ with
  | mk written h' =>
    rw [hw] at hsame hdisk hrun
    simp only at hsame
    subst hsame
    have hok : (essence result).ok = true := by rw [hessence]
    exact ⟨_, h', hrun, hok, rfl, hdisk⟩

/-- The file that a merge writes. -/
theorem run_ok (sources : List String) (rs : List Registry) (out : String) (p : Priority)
    (h h' : Host) (result : BuildResult) (hd : h.disk.WellFormed)
    (hrs : List.Forall₂ (Sources.Holds h.disk) sources rs)
    (hrun : (run sources out p.word false).run h = (.ok result, h')) (hok : result.ok = true) :
    result.artifactPath = h.disk.absolute out ∧ result.units = (merge rs p).registry.names ∧
      ∃ q, Disk.Replaced h.disk h'.disk result.artifactPath
        (Artifact.encode (merge rs p).registry).toUTF8 q := by
  by_cases hne : rs = []
  · subst hne
    cases hrs
    cases hrun
    cases hok
  · obtain ⟨before, h₁, hd₁, hessence, hfinish⟩ := run_loaded sources rs out p h hrs hne
    rw [hfinish] at hrun
    obtain ⟨hwritten, hresult⟩ := finish_ok _ out before result h₁ h' hok hrun
    rw [← hd₁] at hd
    obtain ⟨hpath, q, hq⟩ := Artifact.write_ok _ out _ h₁ h' hd hwritten
    rw [hd₁] at hpath hq
    refine ⟨hpath, ?_, q, hq⟩
    have hunits : (essence before).units = (merge rs p).registry.names := by rw [hessence]
    rw [hresult]
    exact hunits

theorem isRemote_absolute (d : Disk) (path : String) : Path.isRemote (d.absolute path) = false := by
  obtain ⟨names, hplain⟩ := Disk.absolute_plain d path
  exact Path.isRemote_of_isRooted _ (Path.Plain.isRooted _ names hplain)

theorem merged_wellFormed (rs : List Registry) (p : Priority) (hrs : ∀ r ∈ rs, r.Sound) :
    ∀ u ∈ (merge rs p).registry.units, u.WellFormed := by
  intro u hu
  exact Component.Built.wellFormed u ((Registry.merge_sound rs p hrs).units u hu)

/-- A merged registry is restored from an artifact as it was. -/
theorem decode_merged (rs : List Registry) (p : Priority) (source : Option String)
    (hrs : ∀ r ∈ rs, r.Sound) :
    Artifact.decode (Artifact.encode (merge rs p).registry) source = .ok (merge rs p).registry := by
  have hclosed : (merge rs p).registry.units.map Component.close = (merge rs p).registry.units := by
    change ((Merge.run rs p).chosen.map Component.close).map Component.close = _
    rw [List.map_map]
    exact List.map_congr_left fun u _ => Component.close_close u
  rw [Artifact.decode_encode _ source (Merge.names_merge_nodup rs p) (merged_wellFormed rs p hrs),
    hclosed]
  rfl

theorem holds_written (rs : List Registry) (out : String) (p : Priority) (d d' : Disk) (path : String)
    (q : Place) (hrs : ∀ r ∈ rs, r.Sound) (hpath : path = d.absolute out) (hnew : d.IsNew path)
    (h : Disk.Replaced d d' path (Artifact.encode (merge rs p).registry).toUTF8 q) :
    Sources.Holds d' path (merge rs p).registry := by
  have hread := h.read fun t ht => hnew q (.link t) (h.replaces _ ht)
  refine ⟨hpath ▸ isRemote_absolute d out, _,
    Artifact.readText_encode d' path _ (merged_wellFormed rs p hrs) hread, ?_⟩
  exact decode_merged rs p _ hrs

/-- Each group was merged into a new file, one group after the other; the host before, the files
that were written and the host after. -/
inductive Staged (p : Priority) : Host → List (List String) → List String → Host → Prop where
  | nil (h : Host) : Staged p h [] [] h
  | cons (group : List String) (groups : List (List String)) (files : List String) (out : String)
      (result : BuildResult) (h h₁ h' : Host) :
      (run group out p.word false).run h = (.ok result, h₁) → result.ok = true →
      h.disk.IsNew result.artifactPath → Staged p h₁ groups files h' →
      Staged p h (group :: groups) (result.artifactPath :: files) h'

theorem forall₂_sound (d : Disk) (sources : List String) (rs : List Registry)
    (h : List.Forall₂ (Sources.Holds d) sources rs) : ∀ r ∈ rs, r.Sound := by
  intro r hr
  obtain ⟨source, -, hholds⟩ := Result.exists_left_of_mem h r hr
  exact hholds.sound

/-- What was there before is still there, and the files hold the merges of the groups. -/
theorem Staged.holds (p : Priority) (h h' : Host) (groups : List (List String)) (files : List String)
    (hstaged : Staged p h groups files h') (hd : h.disk.WellFormed) (rss : List (List Registry))
    (hrss : List.Forall₂ (List.Forall₂ (Sources.Holds h.disk)) groups rss) :
    h'.disk.WellFormed ∧ Disk.Extends h.disk h'.disk ∧
      List.Forall₂ (Sources.Holds h'.disk) files (rss.map fun rs => (merge rs p).registry) := by
  induction hstaged generalizing rss with
  | nil h =>
    cases hrss
    exact ⟨hd, ⟨rfl, fun _ _ hp => hp⟩, .nil⟩
  | cons group groups files out result h h₁ h' hrun hok hnew _ ih =>
    cases hrss with
    | @cons _ rs _ rss hrs hrss =>
      obtain ⟨hpath, -, q, hq⟩ := run_ok group rs out p h h₁ result hd hrs hrun hok
      -- the file is new, so the sources of the other groups are what they were
      have hfirst := hq.extends h.disk h₁.disk _ _ q hnew
      have hmore : List.Forall₂ (List.Forall₂ (Sources.Holds h₁.disk)) groups rss :=
        hrss.imp fun _ _ hs => hs.imp fun s r => Sources.Holds.extends _ _ hd hfirst s r
      obtain ⟨hd', hrest, hfiles⟩ := ih hq.wellFormed rss hmore
      have hholds := holds_written rs out p h.disk h₁.disk _ q (forall₂_sound _ _ rs hrs) hpath hnew hq
      refine ⟨hd', hfirst.trans _ _ _ hrest, .cons ?_ hfiles⟩
      exact hholds.extends _ _ hq.wellFormed hrest _ _

theorem Staged.full (p : Priority) (h h' : Host) (groups : List (List String)) (files : List String)
    (hstaged : Staged p h groups files h') : ∀ g ∈ groups, g ≠ [] := by
  induction hstaged with
  | nil h => exact fun g hg => absurd hg List.not_mem_nil
  | cons group groups files out result h h₁ h' hrun hok _ _ ih =>
    rw [List.forall_mem_cons]
    refine ⟨?_, ih⟩
    intro hempty
    subst hempty
    cases hrun
    cases hok

/-- Merging the files of the groups and merging all files end alike and leave the same disk. -/
theorem run_files (p : Priority) (h h' : Host) (groups : List (List String)) (files : List String)
    (rss : List (List Registry)) (hd : h.disk.WellFormed)
    (hrss : List.Forall₂ (List.Forall₂ (Sources.Holds h.disk)) groups rss)
    (hstaged : Staged p h groups files h') (out : String) :
    ((run files out p.word false).run h').1.map essence =
        ((run groups.flatten out p.word false).run h').1.map essence ∧
      ((run files out p.word false).run h').2.disk =
        ((run groups.flatten out p.word false).run h').2.disk := by
  obtain ⟨-, hkept, hfiles⟩ := hstaged.holds p h h' groups files hd rss hrss
  have hall : List.Forall₂ (Sources.Holds h'.disk) groups.flatten rss.flatten :=
    (List.rel_flatten hrss).imp fun s r => Sources.Holds.extends _ _ hd hkept s r
  have hfull := hstaged.full
  -- without groups there are no files, and both merges have nothing to load
  cases hrss with
  | nil =>
    cases hfiles
    exact ⟨rfl, rfl⟩
  | @cons group rs groups rss hrs hrss =>
    have hsome : ((rs :: rss).map fun rs => (merge rs p).registry) ≠ [] := by simp
    have hmany : (rs :: rss).flatten ≠ [] := by
      cases hrs with
      | nil => exact absurd rfl (hfull [] (List.mem_cons_self ..))
      | cons _ _ => simp
    obtain ⟨result, k, hk, hresult, hrun⟩ := run_loaded files _ out p h' hfiles hsome
    obtain ⟨result', k', hk', hresult', hrun'⟩ := run_loaded _ _ out p h' hall hmany
    rw [Merge.merge_staged] at hresult hrun
    rw [hrun, hrun']
    exact finish_congr _ out result result' k k' (hresult.trans hresult'.symm) (hk.trans hk'.symm)

/-- Merging in stages, of registries and of files. A registry alone or beside itself gives its units
in order. The last merge of the files ends as one merge of all files would, with the same disk,
whatever it is written to; and it writes the bytes that one merge writes where nothing was merged
before. -/
theorem stages_agree :
    (∀ (groups : List (List Registry)) (p : Priority),
      (merge (groups.map fun g => (merge g p).registry) p).registry =
        (merge groups.flatten p).registry) ∧
    (∀ (r : Registry) (p : Priority), r.names.Nodup →
      (merge [r] p).registry = ⟨r.units.map Component.close, true⟩ ∧
        (merge [r, r] p).registry = ⟨r.units.map Component.close, true⟩) ∧
    (∀ (p : Priority) (h h' : Host) (groups : List (List String)) (files : List String)
        (rss : List (List Registry)), h.disk.WellFormed →
      List.Forall₂ (List.Forall₂ (Sources.Holds h.disk)) groups rss →
      Staged p h groups files h' →
      (∀ out : String,
        ((run files out p.word false).run h').1.map essence =
            ((run groups.flatten out p.word false).run h').1.map essence ∧
          ((run files out p.word false).run h').2.disk =
            ((run groups.flatten out p.word false).run h').2.disk) ∧
      ∀ (out out' : String) (direct staged : BuildResult) (k k' : Host),
        (run groups.flatten out p.word false).run h = (.ok direct, k) → direct.ok = true →
        (run files out' p.word false).run h' = (.ok staged, k') → staged.ok = true →
        ∃ bytes q q', Disk.Replaced h.disk k.disk direct.artifactPath bytes q ∧
          Disk.Replaced h'.disk k'.disk staged.artifactPath bytes q') := by
  refine ⟨Merge.merge_staged, ?_, ?_⟩
  · intro r p hr
    exact ⟨Merge.merge_replicate 0 r p hr, Merge.merge_replicate 1 r p hr⟩
  · intro p h h' groups files rss hd hrss hstaged
    refine ⟨run_files p h h' groups files rss hd hrss hstaged, ?_⟩
    intro out out' direct staged k k' hdirect hok hrun hok'
    obtain ⟨hd', -, hfiles⟩ := hstaged.holds p h h' groups files hd rss hrss
    have hall := List.rel_flatten hrss
    obtain ⟨-, -, q, hq⟩ := run_ok _ _ out p h k direct hd hall hdirect hok
    obtain ⟨-, -, q', hq'⟩ := run_ok files _ out' p h' k' staged hd' hfiles hrun hok'
    rw [Merge.merge_staged] at hq'
    exact ⟨_, q, q', hq, hq'⟩

/-- A machine with one artifact in its root folder. -/
def archive : Host :=
  { disk :=
      { workdir := []
        entries := [(["a"], .file (Artifact.encode Artifact.lineEnds).toUTF8)] } }

def archived : Registry :=
  ⟨Artifact.lineEnds.units.map Component.close, true⟩

theorem archive_wellFormed : archive.disk.WellFormed := by
  refine ⟨?_, rfl⟩
  intro p s e h
  cases p with
  | nil => rfl
  | cons n p =>
    unfold Disk.at? archive at h
    rw [if_neg (by simp), List.find?_cons_of_neg (by simp)] at h
    cases h

theorem archive_holds : Sources.Holds archive.disk "a" archived := by
  obtain ⟨hnames, hbuilt⟩ := Registry.Reachable.sound _ Artifact.lineEnds_reachable
  have hwell : ∀ u ∈ Artifact.lineEnds.units, u.WellFormed :=
    fun u hu => Component.Built.wellFormed u (hbuilt u hu)
  have hread : archive.disk.readFile "a" = .ok (Artifact.encode Artifact.lineEnds).toUTF8 := by rfl
  exact ⟨by decide +kernel, _, Artifact.readText_encode _ "a" _ hwell hread,
    Artifact.decode_encode _ _ hnames hwell⟩

theorem stages_agree_archive : archived.names.Nodup ∧
    (merge [archived, archived] .lastWins).registry =
      ⟨archived.units.map Component.close, true⟩ ∧
    ∃ (h' k k' : Host) (direct staged : BuildResult),
      Staged .lastWins archive [["a"]] ["/b"] h' ∧
      (run ["a"] "c" Priority.lastWins.word false).run archive = (.ok direct, k) ∧
      (run ["/b"] "c" Priority.lastWins.word false).run h' = (.ok staged, k') ∧
      ∃ bytes q q', Disk.Replaced archive.disk k.disk direct.artifactPath bytes q ∧
        Disk.Replaced h'.disk k'.disk staged.artifactPath bytes q' := by
  have hnodup : archived.names.Nodup := (archive_holds.sound ..).distinct
  have hone : List.Forall₂ (Sources.Holds archive.disk) ["a"] [archived] :=
    .cons archive_holds .nil
  have hnew : ∀ out p, archive.disk.resolve false out = .ok (.vacant p) → archive.disk.IsNew out := by
    intro out p hp q e he
    rw [hp] at he
    cases he
  have hb : ((Artifact.write (merge [archived] .lastWins).registry "b").run archive).1 = .ok "/b" := by
    decide +kernel
  have hc : ((Artifact.write (merge [archived] .lastWins).registry "c").run archive).1 = .ok "/c" := by
    decide +kernel
  obtain ⟨first, h', hfirst, hok, hpath, hdisk⟩ :=
    run_of_write ["a"] [archived] "b" "/b" .lastWins archive archive hone (by simp) rfl hb
  obtain ⟨direct, k, hdirect, hok', -, -⟩ :=
    run_of_write ["a"] [archived] "c" "/c" .lastWins archive archive hone (by simp) rfl hc
  have hstaged : Staged .lastWins archive [["a"]] ["/b"] h' := by
    rw [← hpath]
    apply Staged.cons _ _ _ _ _ _ _ _ hfirst hok _ (.nil h')
    rw [hpath]
    exact hnew "/b" ["b"] (by decide +kernel)
  obtain ⟨-, -, hfiles⟩ := hstaged.holds _ _ _ _ _ archive_wellFormed [[archived]] (.cons hone .nil)
  have hd : ((Artifact.write (merge [(merge [archived] .lastWins).registry] .lastWins).registry "c").run
      ((Artifact.write (merge [archived] .lastWins).registry "b").run archive).2).1 = .ok "/c" := by
    decide +kernel
  obtain ⟨staged, k', hrun, hok'', -, -⟩ :=
    run_of_write ["/b"] [(merge [archived] .lastWins).registry] "c" "/c" .lastWins h' _ hfiles
      (by simp) hdisk hd
  refine ⟨hnodup, (stages_agree.2.1 archived .lastWins hnodup).2, h', k, k', direct, staged, hstaged,
    hdirect, hrun, ?_⟩
  exact (stages_agree.2.2 .lastWins archive h' [["a"]] ["/b"] [[archived]] archive_wellFormed
    (.cons hone .nil) hstaged).2 "c" "c" direct staged k k' hdirect hok' hrun hok''

end DocNavigation.MergeFiles
