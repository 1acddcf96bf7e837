import DocNavigation.Proofs.Json.Keys
import Mathlib.Data.List.Perm.Basic

/-!
Objects whose keys are renamed. Where two fields come under one key the later one overwrites the
earlier, so what is left are the last fields of each key.
-/

namespace DocNavigation.Json

section
variable {α : Type} (key : α → String)

/-- The fields whose key does not come again. -/
def lasting : List α → List α
  | [] => []
  | f :: fields => if key f ∈ fields.map key then lasting fields else f :: lasting fields

/-- The fields whose key comes again. -/
def overwritten : List α → List α
  | [] => []
  | f :: fields => if key f ∈ fields.map key then f :: overwritten fields else overwritten fields

theorem lasting_append_overwritten (fields : List α) :
    (lasting key fields ++ overwritten key fields).Perm fields := by
  induction fields with
  | nil => exact .nil
  | cons f fields ih =>
    rw [lasting, overwritten]
    split
    case isTrue => exact List.perm_middle.trans (ih.cons f)
    case isFalse => exact ih.cons f

theorem overwritten_eq_nil_iff (fields : List α) :
    overwritten key fields = [] ↔ (fields.map key).Nodup := by
  induction fields with
  | nil => simp [overwritten]
  | cons f fields ih =>
    rw [overwritten, List.map_cons, List.nodup_cons, ← ih]
    split
    case isTrue hkey => simp [hkey]
    case isFalse hkey => simp [hkey]

theorem lasting_sublist (fields : List α) : (lasting key fields).Sublist fields := by
  induction fields with
  | nil => exact .slnil
  | cons f fields ih =>
    rw [lasting]
    split
    case isTrue => exact ih.cons f
    case isFalse => exact ih.cons_cons f

theorem nodup_lasting (fields : List α) : ((lasting key fields).map key).Nodup := by
  induction fields with
  | nil => exact List.nodup_nil
  | cons f fields ih =>
    rw [lasting]
    split
    case isTrue => exact ih
    case isFalse hkey =>
      rw [List.map_cons, List.nodup_cons]
      exact ⟨fun hmem => hkey (((lasting_sublist key fields).map key).subset hmem), ih⟩

theorem mem_keys_lasting (fields : List α) (k : String) (h : k ∈ fields.map key) :
    k ∈ (lasting key fields).map key := by
  induction fields with
  | nil => exact h
  | cons f fields ih =>
    rw [List.map_cons, List.mem_cons] at h
    rw [lasting]
    split
    case isTrue hkey => exact ih (h.elim (fun hk => hk ▸ hkey) id)
    case isFalse => exact List.mem_cons.mpr (h.imp_right ih)

/-- All fields last if those of one key are equal, and only then. -/
theorem forall_mem_lasting_iff (fields : List α) : (∀ f ∈ fields, f ∈ lasting key fields) ↔
    ∀ f ∈ fields, ∀ g ∈ fields, key f = key g → f = g := by
  constructor
  · intro h f hf g hg hkey
    exact List.inj_on_of_nodup_map (nodup_lasting key fields) (h f hf) (h g hg) hkey
  · intro h f hf
    obtain ⟨g, hg, hkey⟩ := List.mem_map.mp (mem_keys_lasting key fields _ (List.mem_map_of_mem hf))
    exact h f hf g ((lasting_sublist key fields).subset hg) hkey.symm ▸ hg

theorem lasting_map {β : Type} (g : β → α) (fields : List β) :
    lasting key (fields.map g) = (lasting (fun f => key (g f)) fields).map g := by
  induction fields with
  | nil => rfl
  | cons f fields ih =>
    rw [List.map_cons, lasting, lasting, ih, List.map_map]
    split
    case isTrue hkey => rw [if_pos (by exact hkey)]
    case isFalse hkey => rw [if_neg (by exact hkey), List.map_cons]

end

section
variable {α : Type}

theorem put_perm (fields : List (String × α)) (key : String) (value : α)
    (h : (fields.map (·.1)).Nodup) :
    (put fields key value).Perm (fields.filter (fun f => f.1 ≠ key) ++ [(key, value)]) := by
  induction fields with
  | nil => exact .refl _
  | cons f fields ih =>
    rw [List.map_cons, List.nodup_cons] at h
    rw [put]
    split
    case isTrue hkey =>
      have hrest : fields.filter (fun g => g.1 ≠ key) = fields := by
        refine List.filter_eq_self.mpr fun g hg => decide_eq_true fun hgkey => h.1 ?_
        exact hkey.trans hgkey.symm ▸ List.mem_map_of_mem hg
      rw [List.filter_cons_of_neg (by simp [hkey]), hrest, hkey]
      exact (List.perm_append_singleton _ _).symm
    case isFalse hkey =>
      rw [List.filter_cons_of_pos (by simpa using hkey)]
      exact (ih h.2).cons f

/-- Every update removes the field of its key and comes last; the order of the fields is left open. -/
theorem putAll_perm (fields updates : List (String × α)) (h : (fields.map (·.1)).Nodup) :
    (putAll fields updates).Perm
      (fields.filter (fun f => f.1 ∉ updates.map (·.1)) ++ lasting (·.1) updates) := by
  induction updates generalizing fields with
  | nil => simp [putAll, lasting]
  | cons u updates ih =>
    have hput := (put_perm fields u.1 u.2 h).filter (fun f => f.1 ∉ updates.map (·.1))
    refine ((ih _ (put_nodup fields u.1 u.2 h)).trans (hput.append_right _)).trans (.of_eq ?_)
    have hold : (fields.filter (fun f => f.1 ≠ u.1)).filter (fun f => f.1 ∉ updates.map (·.1)) =
        fields.filter (fun f => f.1 ∉ (u :: updates).map (·.1)) := by
      rw [List.filter_filter]
      refine List.filter_congr fun f _ => Bool.eq_iff_iff.mpr ?_
      simp only [Bool.and_eq_true, decide_eq_true_eq, List.map_cons, List.mem_cons, not_or]
      exact and_comm
    rw [List.filter_append, hold, List.append_assoc, lasting]
    split
    case isTrue hkey => rw [List.filter_cons_of_neg (by simpa using hkey)]; rfl
    case isFalse hkey => rw [List.filter_cons_of_pos (by simpa using hkey)]; rfl

theorem putAll_nil_perm (updates : List (String × α)) :
    (putAll [] updates).Perm (lasting (·.1) updates) :=
  putAll_perm [] updates List.nodup_nil

end

end DocNavigation.Json
