import DocNavigation.Json.Read
import Mathlib.Data.List.Nodup

/-!
Keys of objects. Putting values under keys never repeats a key, so no object that was read has a
key twice.
-/

namespace DocNavigation.Json

section
variable {α β : Type}

theorem keys_put (fields : List (String × α)) (key : String) (value : α) :
    (put fields key value).map (·.1) =
      if key ∈ fields.map (·.1) then fields.map (·.1) else fields.map (·.1) ++ [key] := by
  induction fields with
  | nil => simp [put]
  | cons f fields ih =>
    by_cases hf : f.1 = key
    · simp [put, hf]
    · simp only [put, if_neg hf, List.map_cons, ih, List.mem_cons, Ne.symm hf, false_or]
      split <;> rfl

theorem put_nodup (fields : List (String × α)) (key : String) (value : α)
    (h : (fields.map (·.1)).Nodup) : ((put fields key value).map (·.1)).Nodup := by
  rw [keys_put]
  split
  case isTrue => exact h
  case isFalse hkey =>
    rw [← List.concat_eq_append]
    exact h.concat hkey

theorem putAll_cons (fields : List (String × α)) (f : String × α) (updates : List (String × α)) :
    putAll fields (f :: updates) = putAll (put fields f.1 f.2) updates := rfl

theorem putAll_nodup (fields updates : List (String × α)) (h : (fields.map (·.1)).Nodup) :
    ((putAll fields updates).map (·.1)).Nodup := by
  induction updates generalizing fields with
  | nil => exact h
  | cons f updates ih => exact ih _ (put_nodup fields f.1 f.2 h)

theorem put_of_new (fields : List (String × α)) (key : String) (value : α)
    (h : key ∉ fields.map (·.1)) : put fields key value = fields ++ [(key, value)] := by
  induction fields with
  | nil => rfl
  | cons f fields ih =>
    rw [List.map_cons, List.mem_cons, not_or] at h
    rw [put, if_neg (Ne.symm h.1), ih h.2]
    rfl

theorem putAll_of_nodup (fields updates : List (String × α))
    (h : ((fields ++ updates).map (·.1)).Nodup) : putAll fields updates = fields ++ updates := by
  induction updates generalizing fields with
  | nil => simp [putAll]
  | cons f updates ih =>
    have hnew : f.1 ∉ fields.map (·.1) := by
      rw [List.map_append, List.nodup_append] at h
      intro hf
      exact h.2.2 _ hf _ (by simp) rfl
    have happend : fields ++ f :: updates = (fields ++ [f]) ++ updates := by simp
    rw [putAll_cons, put_of_new fields f.1 f.2 hnew, happend]
    exact ih _ (happend ▸ h)

theorem mem_put (fields : List (String × α)) (key : String) (value : α) (f : String × α)
    (h : f ∈ put fields key value) : f ∈ fields ∨ f = (key, value) := by
  induction fields with
  | nil => exact .inr (List.mem_singleton.mp h)
  | cons g fields ih =>
    rw [put] at h
    split at h
    case isTrue hg =>
      rcases List.mem_cons.mp h with h | h
      · exact .inr (by rw [h, hg])
      · exact .inl (List.mem_cons_of_mem _ h)
    case isFalse =>
      rcases List.mem_cons.mp h with h | h
      · exact .inl (h ▸ List.mem_cons_self ..)
      · exact (ih h).imp (List.mem_cons_of_mem _) id

theorem mem_putAll (fields updates : List (String × α)) (f : String × α)
    (h : f ∈ putAll fields updates) : f ∈ fields ∨ f ∈ updates := by
  induction updates generalizing fields with
  | nil => exact .inl h
  | cons g updates ih =>
    rcases ih _ h with h | h
    · exact (mem_put fields g.1 g.2 f h).imp id (fun hf => List.mem_cons.mpr (.inl hf))
    · exact .inr (List.mem_cons_of_mem _ h)

theorem getKey?_eq_some_iff (fields : List (String × α)) (h : (fields.map (·.1)).Nodup)
    (key : String) (value : α) : getKey? fields key = some value ↔ (key, value) ∈ fields := by
  induction fields with
  | nil => simp [getKey?]
  | cons f fields ih =>
    rw [List.map_cons, List.nodup_cons] at h
    have hrest := ih h.2
    simp only [getKey?, List.find?_cons] at hrest ⊢
    by_cases hf : f.1 = key
    · have hnew : (key, value) ∉ fields := fun hmem =>
        h.1 (hf ▸ List.mem_map_of_mem (f := fun g : String × α => g.1) hmem)
      simp [hf, hnew, Prod.ext_iff, eq_comm]
    · simp [hf, hrest, Prod.ext_iff, Ne.symm hf]

theorem isSome_getKey?_iff (fields : List (String × α)) (key : String) :
    (getKey? fields key).isSome = true ↔ key ∈ fields.map (·.1) := by
  simp [getKey?]

theorem getKey?_eq_none_iff (fields : List (String × α)) (key : String) :
    getKey? fields key = none ↔ key ∉ fields.map (·.1) := by
  rw [← isSome_getKey?_iff, Bool.not_eq_true, Option.isSome_eq_false_iff, Option.isNone_iff_eq_none]

/-- The fields in front count. -/
theorem getKey?_append (fields more : List (String × α)) (key : String) :
    getKey? (fields ++ more) key = (getKey? fields key).or (getKey? more key) := by
  rw [getKey?, List.find?_append, Option.map_or]
  rfl

theorem getKey?_cons (f : String × α) (fields : List (String × α)) (key : String) :
    getKey? (f :: fields) key = if f.1 = key then some f.2 else getKey? fields key := by
  by_cases hf : f.1 = key <;> simp [getKey?, hf]

theorem getKey?_put (fields : List (String × α)) (key : String) (value : α) (other : String) :
    getKey? (put fields key value) other =
      if key = other then some value else getKey? fields other := by
  induction fields with
  | nil => rw [put, getKey?_cons]
  | cons f fields ih =>
    rw [put]
    by_cases hf : f.1 = key
    · rw [if_pos hf, getKey?_cons, getKey?_cons, hf]
      split
      · rfl
      · rfl
    · rw [if_neg hf, getKey?_cons, getKey?_cons, ih]
      by_cases hkey : key = other
      · rw [if_pos hkey, if_pos hkey, if_neg (hkey ▸ hf)]
      · rw [if_neg hkey, if_neg hkey]

/-- Values that are changed under their keys are found changed. -/
theorem getKey?_map (g : String → α → β) (fields : List (String × α)) (key : String) :
    getKey? (fields.map fun f => (f.1, g f.1 f.2)) key = (getKey? fields key).map (g key) := by
  induction fields with
  | nil => rfl
  | cons f fields ih =>
    rw [List.map_cons, getKey?_cons, getKey?_cons, ih]
    by_cases hf : f.1 = key
    · rw [if_pos hf, if_pos hf, hf]
      rfl
    · rw [if_neg hf, if_neg hf]

theorem put_map (g : String → α → β) (fields : List (String × α)) (key : String) (value : α) :
    put (fields.map fun f => (f.1, g f.1 f.2)) key (g key value) =
      (put fields key value).map fun f => (f.1, g f.1 f.2) := by
  induction fields with
  | nil => rfl
  | cons f fields ih =>
    rw [List.map_cons, put, put, ih]
    by_cases hf : f.1 = key
    · rw [if_pos hf, if_pos hf, List.map_cons, hf]
    · rw [if_neg hf, if_neg hf, List.map_cons]

/-- A key that comes with one value only has it. -/
theorem getKey?_putAll (fields updates : List (String × α)) (key : String) (value : α)
    (hsome : (key, value) ∈ updates ∨ getKey? fields key = some value)
    (hone : ∀ f ∈ updates, f.1 = key → f.2 = value) :
    getKey? (putAll fields updates) key = some value := by
  induction updates generalizing fields with
  | nil => exact hsome.resolve_left List.not_mem_nil
  | cons f updates ih =>
    rw [List.forall_mem_cons] at hone
    rw [putAll_cons]
    refine ih (put fields f.1 f.2) ?_ hone.2
    by_cases hf : f.1 = key
    · right
      rw [getKey?_put, if_pos hf, hone.1 hf]
    · rw [getKey?_put, if_neg hf]
      refine hsome.imp_left fun hmem => ?_
      rcases List.mem_cons.mp hmem with rfl | hmem
      · exact absurd rfl hf
      · exact hmem

theorem getKey?_filter (fields : List (String × α)) (p : String → Bool) (key : String)
    (h : p key = true) : getKey? (fields.filter fun f => p f.1) key = getKey? fields key := by
  induction fields with
  | nil => rfl
  | cons f fields ih =>
    rw [List.filter_cons, getKey?_cons]
    by_cases hkept : p f.1 = true
    · rw [if_pos hkept, getKey?_cons, ih]
    · have hother : f.1 ≠ key := fun heq => hkept (heq ▸ h)
      rw [if_neg hkept, if_neg hother, ih]

end

mutual

/-- Holds of a value if `p` holds of it and of everything in it. -/
def Everywhere (p : Json → Prop) : Json → Prop
  | .arr items => p (.arr items) ∧ EverywhereItems p items
  | .obj fields => p (.obj fields) ∧ EverywhereFields p fields
  | v => p v

def EverywhereItems (p : Json → Prop) : List Json → Prop
  | [] => True
  | v :: vs => Everywhere p v ∧ EverywhereItems p vs

def EverywhereFields (p : Json → Prop) : List (String × Json) → Prop
  | [] => True
  | (_, v) :: rest => Everywhere p v ∧ EverywhereFields p rest

end

theorem here_of_everywhere (p : Json → Prop) (v : Json) (h : v.Everywhere p) : p v := by
  cases v with
  | arr items => exact h.1
  | obj fields => exact h.1
  | _ => exact h

theorem everywhereItems_iff (p : Json → Prop) (items : List Json) :
    EverywhereItems p items ↔ ∀ v ∈ items, Everywhere p v := by
  induction items with
  | nil => simp [EverywhereItems]
  | cons v vs ih => simp [EverywhereItems, ih]

theorem everywhereFields_iff (p : Json → Prop) (fields : List (String × Json)) :
    EverywhereFields p fields ↔ ∀ f ∈ fields, Everywhere p f.2 := by
  induction fields with
  | nil => simp [EverywhereFields]
  | cons f fs ih => simp [EverywhereFields, ih]

/-- An object has no key twice. -/
def DistinctKeys : Json → Prop
  | .obj fields => (fields.map (·.1)).Nodup
  | _ => True

theorem readScalar_keys (cs : List Char) (v : Json) (rest : List Char)
    (h : readScalar cs = .ok (v, rest)) : v.Everywhere DistinctKeys := by
  unfold readScalar at h
  split at h
  case h_1 heq =>
    obtain ⟨⟨word, w⟩, hmem, hw⟩ := List.exists_of_findSome?_eq_some heq
    have hall : ∀ p ∈ constants, p.2.Everywhere DistinctKeys := by
      simp [constants, Everywhere, DistinctKeys]
    simp only [Option.ite_none_right_eq_some] at hw
    obtain ⟨-, hw⟩ := hw
    injection h with h
    injection hw with hw
    injection hw.trans h with hv
    exact hv ▸ hall _ hmem
  case h_2 =>
    have hmag : ∀ negative left cs, readMagnitude negative left cs = .ok (v, rest) →
        v.Everywhere DistinctKeys := by
      intro negative left cs h
      unfold readMagnitude at h
      split at h
      case h_1 => cases h
      case h_2 =>
        dsimp only at h
        split at h
        case isTrue =>
          split at h
          case isTrue => cases h
          case isFalse => cases h; trivial
        case isFalse => cases h; trivial
    unfold readNumber at h
    split at h
    case h_1 => exact hmag _ _ _ h
    case h_2 => exact hmag _ _ _ h

/-- What reading has gathered so far keeps its keys apart, and so does what it ends in. -/
structure KeepsKeys (fuel : Nat) : Prop where
  value : ∀ cs v rest, readValue fuel cs = .ok (v, rest) → v.Everywhere DistinctKeys
  items : ∀ cs acc v rest, (∀ w ∈ acc, w.Everywhere DistinctKeys) →
    readItems fuel cs acc = .ok (v, rest) → v.Everywhere DistinctKeys
  fields : ∀ cs acc v rest, (∀ f ∈ acc, f.2.Everywhere DistinctKeys) →
    readFields fuel cs acc = .ok (v, rest) → v.Everywhere DistinctKeys

section
variable (fuel : Nat) (ih : KeepsKeys fuel)
include ih

theorem readValue_keys (cs : List Char) (v : Json) (rest : List Char)
    (h : readValue (fuel + 1) cs = .ok (v, rest)) : v.Everywhere DistinctKeys := by
  unfold readValue at h
  split at h
  case h_1 rest' =>
    cases hs : readString rest' with
    | error e =>
      rw [hs] at h
      cases h
    | ok r =>
      rw [hs] at h
      cases h
      trivial
  case h_2 =>
    split at h
    case h_1 =>
      cases h
      exact ⟨trivial, trivial⟩
    case h_2 => exact ih.items _ _ _ _ (by simp) h
  case h_3 =>
    split at h
    case h_1 =>
      cases h
      exact ⟨List.nodup_nil, trivial⟩
    case h_2 => exact ih.fields _ _ _ _ (by simp) h
  case h_4 => exact readScalar_keys _ _ _ h

theorem readItems_keys (cs : List Char) (acc : List Json) (v : Json) (rest : List Char)
    (hacc : ∀ w ∈ acc, w.Everywhere DistinctKeys)
    (h : readItems (fuel + 1) cs acc = .ok (v, rest)) : v.Everywhere DistinctKeys := by
  unfold readItems at h
  split at h
  case h_1 => cases h
  case h_2 w rest' hw =>
    have hall : ∀ u ∈ w :: acc, u.Everywhere DistinctKeys :=
      List.forall_mem_cons.mpr ⟨ih.value _ _ _ hw, hacc⟩
    split at h
    case h_1 =>
      cases h
      exact ⟨trivial, (everywhereItems_iff _ _).mpr fun u hu => hall u (List.mem_reverse.mp hu)⟩
    case h_2 => exact ih.items _ _ _ _ hall h
    case h_3 => cases h

theorem readFields_keys (cs : List Char) (acc : List (String × Json)) (v : Json)
    (rest : List Char) (hacc : ∀ f ∈ acc, f.2.Everywhere DistinctKeys)
    (h : readFields (fuel + 1) cs acc = .ok (v, rest)) : v.Everywhere DistinctKeys := by
  unfold readFields at h
  split at h
  case h_2 => cases h
  case h_1 =>
    split at h
    case h_1 => cases h
    case h_2 key _ _ =>
      split at h
      case h_2 => cases h
      case h_1 =>
        split at h
        case h_1 => cases h
        case h_2 w rest' hw =>
          have hall : ∀ f ∈ (key, w) :: acc, f.2.Everywhere DistinctKeys :=
            List.forall_mem_cons.mpr ⟨ih.value _ _ _ hw, hacc⟩
          split at h
          case h_1 =>
            cases h
            refine ⟨putAll_nodup [] _ List.nodup_nil, (everywhereFields_iff _ _).mpr ?_⟩
            intro f hf
            rcases mem_putAll _ _ _ hf with hf | hf
            · cases hf
            · exact hall f (List.mem_reverse.mp hf)
          case h_2 => exact ih.fields _ _ _ _ hall h
          case h_3 => cases h

end

theorem read_keys (fuel : Nat) : KeepsKeys fuel := by
  induction fuel with
  | zero => exact ⟨by simp [readValue], by simp [readItems], by simp [readFields]⟩
  | succ fuel ih => exact ⟨readValue_keys fuel ih, readItems_keys fuel ih, readFields_keys fuel ih⟩

theorem keys_of_read (s : String) (v : Json) (h : read s = .ok v) : v.Everywhere DistinctKeys := by
  unfold read readDocument at h
  split at h
  case isTrue => cases h
  case isFalse =>
    dsimp only at h
    split at h
    case h_1 => cases h
    case h_2 w rest hw =>
      split at h
      case h_1 =>
        cases h
        exact (read_keys _).value _ _ _ hw
      case h_2 => cases h

end DocNavigation.Json
