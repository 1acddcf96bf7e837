import DocNavigation.Proofs.Disk.Walk

/-!
Well-formed disks. Every entry lies in a folder, and so does every free name that a path leads to.
-/

namespace DocNavigation.Disk

structure WellFormed (d : Disk) : Prop where
  above : ∀ p s e, d.at? (p ++ [s]) = some e → d.at? p = some .folder
  workdir : d.at? d.workdir = some .folder

/-- It is enough to look at the entries that the disk lists. -/
theorem wellFormed_of_entries (d : Disk)
    (habove : ∀ e ∈ d.entries, d.at? e.1.dropLast = some .folder)
    (hworkdir : d.at? d.workdir = some .folder) : d.WellFormed := by
  refine ⟨?_, hworkdir⟩
  intro p s e h
  rw [at?, if_neg (by simp)] at h
  obtain ⟨entry, hfound, -⟩ := Option.map_eq_some_iff.mp h
  have hplace := List.find?_some hfound
  rw [decide_eq_true_eq] at hplace
  have hfolder := habove entry (List.mem_of_find?_eq_some hfound)
  rw [hplace, List.dropLast_concat] at hfolder
  exact hfolder

/-- The result is what the disk has at its place. -/
def Located (d : Disk) (f : Found) : Prop :=
  match f with
  | .entry p e => d.at? p = some e
  | .vacant p => d.at? p = none ∧ ∃ q s, p = q ++ [s] ∧ d.at? q = some .folder

section
variable (d : Disk) (hd : d.WellFormed)
include hd

theorem at?_dropLast (p : Place) (h : d.at? p = some .folder) : d.at? p.dropLast = some .folder := by
  by_cases hp : p = []
  · rw [hp]
    rfl
  · apply hd.above p.dropLast (p.getLast hp) .folder
    rw [List.dropLast_concat_getLast]
    exact h

theorem leads_located (atEnd : Bool) (links : Nat) (names : List String) (p : Place) (f : Found)
    (hp : d.at? p = some .folder) (h : d.Leads atEnd links names p f) : d.Located f := by
  induction h with
  | arrives links p => exact hp
  | here links rest p f _ ih => exact ih hp
  | up links rest p f _ ih => exact ih (at?_dropLast d hd p hp)
  | down links s rest p f _ hfolder _ ih => exact ih hfolder
  | stops links s p _ _ _ =>
    rw [landing]
    cases he : d.at? (p ++ [s]) with
    | none => exact ⟨he, p, s, rfl, hp⟩
    | some e => exact he
  | across links s t rest p f _ _ _ _ ih =>
    apply ih
    split
    · rfl
    · exact hp

theorem find_located (atEnd : Bool) (path : String) (f : Found) (hf : d.find atEnd path = .ok f) :
    d.Located f := by
  obtain ⟨-, -, h⟩ := (find_eq_ok_iff d atEnd path f).mp hf
  apply leads_located d hd atEnd maxLinks _ _ f _ h
  rw [start]
  split
  · rfl
  · exact hd.workdir

theorem put_wellFormed (q : Place) (s : String) (e : DiskEntry) (hq : d.at? q = some .folder)
    (hfree : d.at? (q ++ [s]) ≠ some .folder) : (d.put (q ++ [s]) e).WellFormed := by
  have hput := fun p => at?_put d (q ++ [s]) p e (by simp)
  have hfolder : ∀ p, d.at? p = some .folder → (d.put (q ++ [s]) e).at? p = some .folder := by
    intro p hp
    have hne : p ≠ q ++ [s] := by
      intro hpq
      rw [hpq] at hp
      exact hfree hp
    rw [hput, if_neg hne]
    exact hp
  refine ⟨?_, hfolder _ hd.workdir⟩
  -- the new entry lies in its folder, every other one where it lay
  intro p t e' hp
  apply hfolder
  rw [hput] at hp
  by_cases hpt : p ++ [t] = q ++ [s]
  · rw [(List.append_inj' hpt rfl).1]
    exact hq
  · rw [if_neg hpt] at hp
    exact hd.above p t e' hp

theorem erase_wellFormed (p : Place) (hne : p ≠ []) (hp : d.at? p ≠ some .folder) :
    (d.erase p).WellFormed := by
  have herase := fun q => at?_erase d p q hne
  have hfolder : ∀ q, d.at? q = some .folder → (d.erase p).at? q = some .folder := by
    intro q hq
    have hqp : q ≠ p := by
      intro hqp
      rw [hqp] at hq
      exact hp hq
    rw [herase, if_neg hqp]
    exact hq
  refine ⟨?_, hfolder _ hd.workdir⟩
  intro q s e hq
  apply hfolder
  rw [herase] at hq
  by_cases hqp : q ++ [s] = p
  · rw [if_pos hqp] at hq
    cases hq
  · rw [if_neg hqp] at hq
    exact hd.above q s e hq

end

end DocNavigation.Disk
