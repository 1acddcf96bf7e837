import DocNavigation.Scan
import DocNavigation.Proofs.Disk.Below
import Mathlib.Data.String.Basic

/-!
The walk over a folder. It finds the files that can be reached through folders without meeting a name
that is kept out, and lists those of a folder before those of the folders in it.
-/

namespace DocNavigation

namespace Scan

theorem mem_sorted (names : List String) (s : String) : s ∈ sorted names ↔ s ∈ names :=
  List.mem_mergeSort

theorem sorted_increasing (names : List String) (h : names.Nodup) :
    (sorted names).Pairwise (· < ·) := by
  have hordered : (sorted names).Pairwise fun a b => (!decide (b < a)) = true := by
    refine List.pairwise_mergeSort ?_ ?_ names
    · intro a b c hab hbc
      simp only [Bool.not_eq_true', decide_eq_false_iff_not, not_lt] at hab hbc ⊢
      exact hab.trans hbc
    · intro a b
      simp only [Bool.or_eq_true, Bool.not_eq_true', decide_eq_false_iff_not, not_lt]
      exact le_total a b
  have hdistinct : (sorted names).Pairwise (· ≠ ·) :=
    (List.mergeSort_perm names _).nodup_iff.mpr h
  refine (hordered.and hdistinct).imp fun {a b} hab => ?_
  simp only [Bool.not_eq_true', decide_eq_false_iff_not, not_lt] at hab
  exact lt_of_le_of_ne hab.1 hab.2

end Scan

namespace Disk

/-- There is an entry that a folder lists as a file: no folder, and no link that leads to one. -/
def ListsFile (d : Disk) (p : Place) (name : String) : Prop :=
  ∃ e, d.at? (p ++ [name]) = some e ∧ e ≠ .folder ∧ Scan.leadsToFolder d p name = false

end Disk

namespace Scan

section
variable (d : Disk) (hd : d.Regular) (p : Place)
include hd

theorem children_names_nodup (g : String × DiskEntry → Option String)
    (hg : ∀ c s, g c = some s → s = c.1) : ((d.children p).filterMap g).Nodup := by
  refine List.Pairwise.filterMap g ?_ (hd.children_distinct d p)
  intro a b hne s hs t ht hst
  exact hne ((hg a s hs).symm.trans (hst.trans (hg b t ht)))

theorem folderNames_increasing : (folderNames d p).Pairwise (· < ·) := by
  refine sorted_increasing _ (children_names_nodup d hd p _ ?_)
  rintro ⟨name, e⟩ s hs
  dsimp only at hs
  split at hs
  case isTrue => exact (Option.some.inj hs).symm
  case isFalse => cases hs

theorem fileNames_increasing : (fileNames d p).Pairwise (· < ·) := by
  refine sorted_increasing _ (children_names_nodup d hd p _ ?_)
  rintro ⟨name, e⟩ s hs
  dsimp only at hs
  split at hs
  case isTrue => cases hs
  case isFalse => exact (Option.some.inj hs).symm

theorem mem_folderNames (s : String) :
    s ∈ folderNames d p ↔ d.at? (p ++ [s]) = some .folder := by
  rw [folderNames, mem_sorted, List.mem_filterMap, hd.at?_iff]
  constructor
  · rintro ⟨⟨name, e⟩, hmem, hs⟩
    dsimp only at hs
    split at hs
    case isTrue hfolder =>
      cases hs
      exact hfolder ▸ hmem
    case isFalse => cases hs
  · exact fun hmem => ⟨_, hmem, if_pos rfl⟩

theorem leadsToFolder_of_folder (s : String) (h : d.at? (p ++ [s]) = some .folder) :
    leadsToFolder d p s = true := by
  have hs := hd.fileName d p s _ h
  have hthrough : d.through true Disk.maxLinks [s] p = .ok (.entry (p ++ [s]) .folder) := by
    rw [Disk.through_down d true _ [] p s ⟨hs.isName.dot, hs.isName.dots, hs.nameable.short⟩ h,
      Disk.through_nil]
  rw [leadsToFolder, hthrough]

theorem mem_fileNames (s : String) : s ∈ fileNames d p ↔ d.ListsFile p s := by
  rw [fileNames, mem_sorted, List.mem_filterMap]
  constructor
  · rintro ⟨⟨name, e⟩, hmem, hs⟩
    dsimp only at hs
    split at hs
    case isTrue => cases hs
    case isFalse hfile =>
      cases hs
      have hat := (hd.at?_iff d p s e).mpr hmem
      refine ⟨e, hat, ?_, by simpa using hfile⟩
      rintro rfl
      exact hfile (leadsToFolder_of_folder d hd p s hat)
  · rintro ⟨e, hat, -, hfile⟩
    exact ⟨(s, e), (hd.at?_iff d p s e).mp hat, by simp [hfile]⟩

end

variable (d : Disk) (f : Filter)

theorem filesBelow_above (fuel : Nat) (p : Place) (above : List String) :
    filesBelow d f fuel p above = (filesBelow d f fuel p []).map (above ++ ·) := by
  induction fuel generalizing p above with
  | zero => rfl
  | succ fuel ih =>
    rw [filesBelow, filesBelow, List.map_append, List.map_map, List.map_flatMap]
    congr 1
    refine List.flatMap_congr fun s _ => ?_
    rw [ih _ (above ++ [s]), ih _ ([] ++ [s]), List.map_map]
    refine List.map_congr_left fun rel _ => ?_
    simp

theorem filesBelow_succ (fuel : Nat) (p : Place) : filesBelow d f (fuel + 1) p [] =
    ((fileNames d p).filter f.accepts).map ([·]) ++
      ((folderNames d p).filter fun s => !f.rejects s).flatMap fun s =>
        (filesBelow d f fuel (p ++ [s]) []).map (s :: ·) := by
  rw [filesBelow]
  congr 1
  refine List.flatMap_congr fun s _ => ?_
  rw [filesBelow_above d f fuel (p ++ [s]) ([] ++ [s])]
  rfl

theorem filesBelow_full (fuel : Nat) (p : Place) : ∀ rel ∈ filesBelow d f fuel p [], rel ≠ [] := by
  intro rel h
  cases fuel with
  | zero => cases h
  | succ fuel =>
    rw [filesBelow_succ, List.mem_append, List.mem_map, List.mem_flatMap] at h
    rcases h with ⟨s, -, rfl⟩ | ⟨s, -, h⟩
    · simp
    · obtain ⟨rest, -, rfl⟩ := List.mem_map.mp h
      simp

/-- The files that the walk finds, as far as the fuel goes. -/
theorem mem_filesBelow_iff (hd : d.Regular) (fuel : Nat) (p : Place) (rel : List String) :
    rel ∈ filesBelow d f fuel p [] ↔ ∃ way name, rel = way ++ [name] ∧ way.length < fuel ∧
      d.ListsFile (p ++ way) name ∧ f.accepts name = true ∧ ∀ s ∈ way, f.rejects s = false := by
  induction fuel generalizing p rel with
  | zero => simp [filesBelow]
  | succ fuel ih =>
    rw [filesBelow_succ, List.mem_append, List.mem_map, List.mem_flatMap]
    constructor
    · rintro (⟨name, hname, rfl⟩ | ⟨s, hs, hrel⟩)
      · obtain ⟨hfile, haccept⟩ := List.mem_filter.mp hname
        exact ⟨[], name, rfl, Nat.succ_pos fuel, by simpa using (mem_fileNames d hd p name).mp hfile,
          haccept, by simp⟩
      · obtain ⟨rest, hrest, rfl⟩ := List.mem_map.mp hrel
        obtain ⟨way, name, rfl, hfuel, hfile, haccept, hway⟩ := (ih _ rest).mp hrest
        rw [List.append_assoc] at hfile
        exact ⟨s :: way, name, rfl, Nat.succ_lt_succ hfuel, hfile, haccept,
          List.forall_mem_cons.mpr ⟨by simpa using (List.mem_filter.mp hs).2, hway⟩⟩
    · rintro ⟨way, name, rfl, hfuel, hfile, haccept, hway⟩
      cases way with
      | nil =>
        refine .inl ⟨name, List.mem_filter.mpr ⟨(mem_fileNames d hd p name).mpr ?_, haccept⟩, rfl⟩
        simpa using hfile
      | cons s way =>
        rw [List.forall_mem_cons] at hway
        -- whatever lies above an entry is a folder, and no link
        obtain ⟨e, hat, hrest⟩ := hfile
        have habove := hd.wellFormed.above _ _ _ hat
        have hfolder : d.at? (p ++ [s]) = some .folder :=
          hd.wellFormed.prefix_folder d _ _ ⟨way, by simp⟩ habove
        refine .inr ⟨s, List.mem_filter.mpr ⟨(mem_folderNames d hd p s).mpr hfolder, ?_⟩, ?_⟩
        · simpa using hway.1
        · refine List.mem_map.mpr ⟨way ++ [name], (ih _ _).mpr ?_, rfl⟩
          refine ⟨way, name, rfl, Nat.lt_of_succ_lt_succ hfuel, ?_, haccept, hway.2⟩
          rw [List.append_assoc]
          exact ⟨e, hat, hrest⟩

theorem le_foldl_max (ns : List Nat) (n : Nat) (h : n ∈ ns) (m : Nat) : n ≤ ns.foldl max m := by
  have hstart : ∀ (ns : List Nat) m, m ≤ ns.foldl max m := by
    intro ns
    induction ns with
    | nil => exact fun m => Nat.le_refl m
    | cons k ns ih => exact fun m => (Nat.le_max_left m k).trans (ih (max m k))
  induction ns generalizing m with
  | nil => cases h
  | cons k ns ih =>
    rcases List.mem_cons.mp h with rfl | h
    · exact (Nat.le_max_right m n).trans (hstart ns (max m n))
    · exact ih h (max m k)

theorem length_lt_depthBound (hd : d.Regular) (p : Place) (s : String) (e : DiskEntry)
    (h : d.at? (p ++ [s]) = some e) : p.length < depthBound d := by
  have hmem := (Disk.mem_children_iff d p s e).mp ((hd.at?_iff d p s e).mp h)
  have hle := le_foldl_max (d.entries.map (·.1.length)) (p ++ [s]).length
    (List.mem_map_of_mem hmem) 0
  rw [List.length_append, List.length_singleton] at hle
  exact Nat.lt_succ_of_lt hle

/-- The walk reaches every depth. -/
theorem mem_files_iff (hd : d.Regular) (root : Place) (rel : List String) :
    rel ∈ files d f root ↔ ∃ way name, rel = way ++ [name] ∧ d.ListsFile (root ++ way) name ∧
      f.accepts name = true ∧ ∀ s ∈ way, f.rejects s = false := by
  rw [files, mem_filesBelow_iff d f hd]
  refine exists_congr fun way => exists_congr fun name => and_congr_right fun _ => ?_
  refine and_iff_right_of_imp fun hfile => ?_
  obtain ⟨e, hat, -⟩ := hfile.1
  have hdepth := length_lt_depthBound d hd _ name e hat
  rw [List.length_append] at hdepth
  exact (Nat.le_add_left _ _).trans_lt hdepth

end Scan

end DocNavigation
