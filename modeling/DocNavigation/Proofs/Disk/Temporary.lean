import DocNavigation.Disk.Replace
import DocNavigation.Proofs.Disk.Folders
import DocNavigation.Proofs.Host

/-!
Temporary files. They get names that are free in their folder, and what they are filled with moves
on to a name beside them.
-/

namespace DocNavigation.Disk

theorem run_attempt_ok {α : Type} (step : DiskStep) (next : DiskAct α) (d d' : Disk) (a : α)
    (h : (do attempt step; next).run d = (.ok a, d')) :
    d.failing.contains step = false ∧ next.run d = (.ok a, d') := by
  rw [Effect.run_bind, run_attempt] at h
  by_cases hfails : d.failing.contains step = true
  · rw [if_pos hfails] at h
    cases h
  · rw [if_neg hfails] at h
    exact ⟨Bool.eq_false_iff.mpr hfails, h⟩

theorem isName_sampleTemporary : Path.IsName sampleTemporary :=
  ⟨by decide, by decide, by decide, by decide⟩

theorem mem_children (d : Disk) (p : Place) (name : String) (e : DiskEntry)
    (h : d.at? (p ++ [name]) = some e) : (name, e) ∈ d.children p := by
  unfold at? at h
  rw [if_neg (by simp)] at h
  obtain ⟨entry, hentry, rfl⟩ := Option.map_eq_some_iff.mp h
  have hplace := List.find?_some hentry
  replace hplace := of_decide_eq_true hplace
  refine List.mem_filterMap.mpr ⟨entry, List.mem_of_find?_eq_some hentry, ?_⟩
  obtain ⟨q, e⟩ := entry
  simp only at hplace
  subst hplace
  simp

theorem le_total (n : Nat) (ns : List Nat) (h : n ∈ ns) : n ≤ Number.total ns := by
  induction ns with
  | nil => exact absurd h List.not_mem_nil
  | cons m ns ih =>
    rw [Number.total]
    rcases List.mem_cons.mp h with rfl | h
    · exact Nat.le_add_right _ _
    · exact Nat.le_add_left_of_le (ih h)

/-- The name is none of those taken, or longer than all of them together. -/
theorem temporaryName_free (taken : List String) : temporaryName taken ∉ taken := by
  unfold temporaryName
  split
  case isTrue =>
    intro hmem
    have hle := le_total _ (taken.map String.length) (List.mem_map_of_mem hmem)
    have hsample : sampleTemporary.length = 22 := by decide
    rw [String.length_append, String.length_ofList, List.length_replicate, hsample] at hle
    omega
  case isFalse hnew => exact fun hmem => hnew (List.contains_iff_mem.mpr hmem)

/-- A place that is free in a folder. -/
structure FreeIn (d : Disk) (x p : Place) : Prop where
  folder : d.at? x = some .folder
  free : d.at? p = none
  name : ∃ s, p = x ++ [s]

theorem free_temporary (d : Disk) (x : Place) :
    d.at? (x ++ [temporaryName ((d.children x).map (·.1))]) = none := by
  by_contra hsome
  obtain ⟨e, he⟩ := Option.ne_none_iff_exists'.mp hsome
  exact temporaryName_free ((d.children x).map (·.1)) (List.mem_map_of_mem (mem_children d x _ e he))

theorem freeIn_temporary (d : Disk) (x : Place) (hx : d.at? x = some .folder) :
    FreeIn d x (x ++ [temporaryName ((d.children x).map (·.1))]) :=
  ⟨hx, free_temporary d x, _, rfl⟩

theorem located_above (d : Disk) (hd : d.WellFormed) (atEnd : Bool) (path : String) (f : Found)
    (hf : d.find atEnd path = .ok f) : d.at? f.place.dropLast = some .folder := by
  have hlocated := find_located d hd atEnd path f hf
  cases f with
  | entry p e =>
    rcases List.eq_nil_or_concat' p with rfl | ⟨q, s, rfl⟩
    · rfl
    · rw [Found.place, List.dropLast_concat]
      exact hd.above q s e hlocated
  | vacant p =>
    obtain ⟨-, q, s, rfl, hq⟩ := hlocated
    rw [Found.place, List.dropLast_concat]
    exact hq

theorem run_makeTemporary (d : Disk) (folder : String) (f : Found)
    (hf : d.resolve false (Path.join folder sampleTemporary) = .ok f) :
    (makeTemporary folder).run d =
      if d.failing.contains .create then (.error .device, d)
      else
        let above := f.place.dropLast
        let p := above ++ [temporaryName ((d.children above).map (·.1))]
        (.ok p, d.put p (.file .empty)) := by
  rw [makeTemporary, Effect.run_bind, Effect.run_get]
  simp only [hf]
  rw [Effect.run_bind, run_attempt]
  by_cases hfails : d.failing.contains .create = true
  · rw [if_pos hfails, if_pos hfails]
  · rw [if_neg hfails, if_neg hfails]
    rfl

theorem makeTemporary_failed (d d' : Disk) (folder : String) (e : DiskError)
    (h : (makeTemporary folder).run d = (.error e, d')) : d' = d := by
  cases hr : d.resolve false (Path.join folder sampleTemporary) with
  | error e =>
    rw [makeTemporary, Effect.run_bind, Effect.run_get] at h
    simp only [hr] at h
    cases e <;> exact (congrArg Prod.snd h).symm
  | ok f =>
    rw [run_makeTemporary d folder f hr] at h
    split at h
    case isTrue => exact (congrArg Prod.snd h).symm
    case isFalse => cases h

theorem makeTemporary_found (d d' : Disk) (folder : String) (p : Place)
    (h : (makeTemporary folder).run d = (.ok p, d')) :
    d.failing.contains .create = false ∧ d' = d.put p (.file .empty) ∧
      ∃ f, d.resolve false (Path.join folder sampleTemporary) = .ok f ∧
        p = f.place.dropLast ++ [temporaryName ((d.children f.place.dropLast).map (·.1))] := by
  cases hr : d.resolve false (Path.join folder sampleTemporary) with
  | error e =>
    rw [makeTemporary, Effect.run_bind, Effect.run_get] at h
    simp only [hr] at h
    cases e <;> cases h
  | ok f =>
    rw [run_makeTemporary d folder f hr] at h
    split at h
    case isTrue => cases h
    case isFalse hcreate =>
      cases h
      exact ⟨Bool.eq_false_iff.mpr hcreate, rfl, f, rfl, rfl⟩

theorem makeTemporary_ok (d d' : Disk) (hd : d.WellFormed) (folder : String) (p : Place)
    (h : (makeTemporary folder).run d = (.ok p, d')) :
    (∃ x, FreeIn d x p) ∧ d' = d.put p (.file .empty) := by
  obtain ⟨-, hput, f, hf, rfl⟩ := makeTemporary_found d d' folder p h
  have habove := located_above d hd false _ f ((resolve_eq_ok_iff d false _ f).mp hf).2
  exact ⟨⟨_, freeIn_temporary d f.place.dropLast habove⟩, hput⟩

theorem putFile_ok (d d' : Disk) (p : Place) (bytes : ByteArray)
    (h : (putFile p bytes).run d = (.ok (), d')) :
    d.failing.contains .write = false ∧ d' = d.put p (.file bytes) := by
  obtain ⟨hwrite, h⟩ := run_attempt_ok .write _ d d' () h
  cases h
  exact ⟨hwrite, rfl⟩

/-- A file in a free place of a folder. -/
structure Added (d d₂ : Disk) (p : Place) (bytes : ByteArray) : Prop where
  wellFormed : d₂.WellFormed
  workdir : d₂.workdir = d.workdir
  free : d.at? p = none
  entries : ∀ q, d₂.at? q = if q = p then some (.file bytes) else d.at? q

theorem added_temporary (d : Disk) (hd : d.WellFormed) (y p : Place) (bytes : ByteArray)
    (hp : FreeIn d y p) : p ≠ [] ∧ Added d ((d.put p (.file .empty)).put p (.file bytes)) p bytes := by
  obtain ⟨hy, hfree, s, rfl⟩ := hp
  have hne : y ++ [s] ≠ [] := by simp
  have hempty := fun q => at?_put d (y ++ [s]) q (.file .empty) hne
  have hfull := fun q => at?_put (d.put (y ++ [s]) (.file .empty)) (y ++ [s]) q (.file bytes) hne
  have hother : y ≠ y ++ [s] := by simp
  refine ⟨hne, ?_, rfl, hfree, ?_⟩
  · apply put_wellFormed _ _ y s
    · rw [hempty, if_neg hother]
      exact hy
    · rw [hempty, if_pos rfl]
      exact nofun
    · apply put_wellFormed d hd y s _ hy
      rw [hfree]
      exact nofun
  · intro q
    rw [hfull, hempty]
    by_cases hq : q = y ++ [s]
    · rw [if_pos hq, if_pos hq]
    · rw [if_neg hq, if_neg hq, if_neg hq]

section
variable (d d₂ : Disk) (p : Place) (bytes : ByteArray) (h : Added d d₂ p bytes)
include h

theorem Added.kept (q : Place) (e : DiskEntry) (hq : d.at? q = some e) : d₂.at? q = some e := by
  rw [h.entries, if_neg]
  · exact hq
  · intro hqp
    rw [hqp, h.free] at hq
    cases hq

/-- The folders and links of a disk with one more file are those it had. -/
theorem Added.keeps : Keeps d d₂ ∧ Keeps d₂ d := by
  have hto := Added.kept d d₂ p bytes h
  have hback : ∀ q e, (∀ bytes, e ≠ .file bytes) → d₂.at? q = some e → d.at? q = some e := by
    intro q e hfile hq
    rw [h.entries] at hq
    split at hq
    · cases hq
      exact absurd rfl (hfile bytes)
    · exact hq
  exact ⟨⟨h.workdir, fun q => hto q _, fun q t => hto q _⟩,
    ⟨h.workdir.symm, fun q => hback q _ nofun, fun q t => hback q _ nofun⟩⟩

/-- The file moves on to a name in a folder. -/
theorem Added.moved (hp : p ≠ []) (x : Place) (s : String) (hx : d₂.at? x = some .folder)
    (hfree : d₂.at? (x ++ [s]) ≠ some .folder) :
    ((d₂.erase p).put (x ++ [s]) (.file bytes)).WellFormed ∧
      ∀ r, ((d₂.erase p).put (x ++ [s]) (.file bytes)).at? r =
        if r = x ++ [s] then some (.file bytes) else d.at? r := by
  have hne : x ++ [s] ≠ [] := by simp
  have hput := fun r => at?_put (d₂.erase p) (x ++ [s]) r (.file bytes) hne
  have herase := fun r => at?_erase d₂ p r hp
  have hfile : d₂.at? p = some (.file bytes) := by
    rw [h.entries, if_pos rfl]
  have hxp : x ≠ p := by
    intro hxp
    rw [hxp, hfile] at hx
    cases hx
  constructor
  · apply put_wellFormed (d₂.erase p)
    · apply erase_wellFormed d₂ h.wellFormed p hp
      rw [hfile]
      exact nofun
    · rw [herase, if_neg hxp]
      exact hx
    · rw [herase]
      split
      · exact nofun
      · exact hfree
  · intro r
    rw [hput, herase, h.entries]
    by_cases hr : r = x ++ [s]
    · rw [if_pos hr, if_pos hr]
    by_cases hrp : r = p
    · rw [if_neg hr, if_neg hr, if_pos hrp, hrp, h.free]
    · rw [if_neg hr, if_neg hr, if_neg hrp, if_neg hrp]

end

end DocNavigation.Disk
