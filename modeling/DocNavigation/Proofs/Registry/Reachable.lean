import DocNavigation.Proofs.Artifact.Records
import DocNavigation.Proofs.Host
import DocNavigation.Proofs.Merge.Run
import DocNavigation.Script.Files

/-!
Registries that the operations lead to. Their names are distinct and their units are built.
-/

namespace DocNavigation.Registry

inductive Reachable : Registry → Prop
  | empty : Reachable {}
  | add (r s : Registry) (u : Component) (hr : Reachable r) (ht : u.tree.Built)
      (hc : u.catalog.Built) (h : r.add u = .ok s) : Reachable s
  | register (r s : Registry) (name : Json) (tree : Tree) (catalog : Catalog) (u : Component)
      (hr : Reachable r) (ht : tree.Built) (hc : catalog.Built)
      (h : r.register name tree catalog = .ok (s, u)) : Reachable s
  | freeze (r : Registry) (hr : Reachable r) : Reachable r.freeze
  /-- A registered tree may lie in a larger one that is still open, and change through that. -/
  | change (r : Registry) (place : Nat) (t : Tree) (hr : Reachable r) (ht : t.Built) :
      Reachable { r with units := r.units.modify place fun u => { u with tree := t } }
  | merge (sources : List Registry) (priority : Priority) (h : ∀ r ∈ sources, Reachable r) :
      Reachable (merge sources priority).registry
  | decode (text : String) (source : Option String) (r : Registry)
      (h : Artifact.decode text source = .ok r) : Reachable r
  | importFrom (path : String) (folder : Option String) (host host' : Host) (r : Registry)
      (h : (Script.importFrom path folder).run host = (.ok r, host')) : Reachable r

structure Sound (r : Registry) : Prop where
  distinct : r.names.Nodup
  units : ∀ u ∈ r.units, u.Built

theorem sound_empty : Sound {} :=
  ⟨List.nodup_nil, nofun⟩

theorem add_sound (r s : Registry) (u : Component) (hr : r.Sound) (ht : u.tree.Built)
    (hc : u.catalog.Built) (h : r.add u = .ok s) : s.Sound := by
  have hnames := add_names r s u h
  obtain ⟨hname, -, hnew, rfl⟩ := (add_eq_ok_iff r s u).mp h
  refine ⟨?_, ?_⟩
  · rw [hnames, ← List.concat_eq_append]
    exact hr.distinct.concat hnew
  · intro v hv
    rcases List.mem_append.mp hv with hv | hv
    · exact hr.units v hv
    · rw [List.mem_singleton.mp hv]
      exact Component.Built.close u ⟨hname, ht, hc⟩

theorem register_sound (r s : Registry) (name : Json) (tree : Tree) (catalog : Catalog)
    (u : Component) (hr : r.Sound) (ht : tree.Built) (hc : catalog.Built)
    (h : r.register name tree catalog = .ok (s, u)) : s.Sound := by
  obtain ⟨n, -, -, hadd⟩ := (register_eq_ok_iff r s name tree catalog u).mp h
  exact add_sound r s ⟨n, tree, catalog⟩ hr ht hc hadd

theorem change_sound (r : Registry) (place : Nat) (t : Tree) (hr : r.Sound) (ht : t.Built) :
    Sound { r with units := r.units.modify place fun u => { u with tree := t } } := by
  refine ⟨?_, ?_⟩
  · have hnames : (r.units.modify place fun u => { u with tree := t }).map (·.name) = r.names := by
      refine List.ext_getElem? fun i => ?_
      rw [List.getElem?_map, List.getElem?_modify, names, List.getElem?_map]
      cases r.units[i]? with
      | none => rfl
      | some u => by_cases hi : place = i <;> simp [hi]
    change ((r.units.modify place _).map _).Nodup
    rw [hnames]
    exact hr.distinct
  · intro u hu
    obtain ⟨i, hi⟩ := List.mem_iff_getElem?.mp hu
    rw [List.getElem?_modify] at hi
    obtain ⟨v, hv, rfl⟩ := Option.map_eq_some_iff.mp hi
    have hbuilt := hr.units v (List.mem_of_getElem? hv)
    by_cases hplace : place = i
    · rw [if_pos hplace]
      exact ⟨hbuilt.name, ht, hbuilt.catalog⟩
    · rw [if_neg hplace]
      exact hbuilt

theorem merge_sound (sources : List Registry) (priority : Priority)
    (h : ∀ r ∈ sources, r.Sound) : (DocNavigation.merge sources priority).registry.Sound := by
  have hmet := Merge.met_run sources priority
  have hnodup : ((Merge.run sources priority).chosen.map (·.name)).Nodup := by
    rw [hmet.names]
    exact Merge.metAfter_nodup 0 _
  refine ⟨?_, ?_⟩
  · change (((Merge.run sources priority).chosen.map Component.close).map (·.name)).Nodup
    rw [Component.map_name_close]
    exact hnodup
  · intro u hu
    obtain ⟨v, hv, rfl⟩ := List.mem_map.mp hu
    have hfind := (Component.find?_eq_some_iff _ hnodup v.name v).mpr ⟨hv, rfl⟩
    rw [hmet.chosen] at hfind
    have hmem := Merge.mem_of_preferred priority _ _ _ hfind
    obtain ⟨r, hr, hvr⟩ := List.mem_flatMap.mp hmem
    exact Component.Built.close v ((h r hr).units v hvr)

theorem decode_sound (text : String) (source : Option String) (r : Registry)
    (h : Artifact.decode text source = .ok r) : r.Sound := by
  obtain ⟨us, ⟨hnodup, first, records, header, -, -, -, hus⟩, rfl⟩ :=
    (Artifact.decode_eq_ok_iff text source r).mp h
  refine ⟨?_, ?_⟩
  · change ((us.map Component.close).map (·.name)).Nodup
    rw [Component.map_name_close]
    exact hnodup
  · intro u hu
    obtain ⟨v, hv, rfl⟩ := List.mem_map.mp hu
    obtain ⟨line, -, hline⟩ := Result.exists_left_of_mem hus v hv
    exact Component.Built.close v (Artifact.built_of_record line v hline)

theorem readAssignment_built (trees : List (String × Tree)) (line : List Char) (n : String)
    (t : Tree) (h : Script.readAssignment trees line = .ok (n, t)) :
    Name.isSegment n = true ∧ t.Built := by
  unfold Script.readAssignment at h
  split at h
  case h_1 => cases h
  case h_2 =>
    obtain ⟨key, -, h⟩ := (Result.bind_eq_ok_iff _ _ _).mp h
    obtain ⟨value, -, h⟩ := (Result.bind_eq_ok_iff _ _ _).mp h
    obtain ⟨name, hname, h⟩ := (Result.bind_eq_ok_iff _ _ _).mp h
    split at h
    case isTrue => cases h
    case isFalse =>
      obtain ⟨t', ht', h⟩ := (Result.bind_eq_ok_iff _ _ _).mp h
      cases h
      have hcheck := (Result.mapError_eq_ok_iff _ _ _).mp hname
      exact ⟨(Name.isSegment_of_check "unit" key n hcheck).2, .ofJson value t ht'⟩

theorem parseLines_built (source : Option String) (lines : List (List Char)) (number : Nat)
    (trees all : List (String × Tree))
    (htrees : ∀ p ∈ trees, Name.isSegment p.1 = true ∧ p.2.Built)
    (h : Script.parseLines source lines number trees = .ok all) :
    ∀ p ∈ all, Name.isSegment p.1 = true ∧ p.2.Built := by
  induction lines generalizing number trees with
  | nil =>
    cases h
    exact htrees
  | cons raw lines ih =>
    rw [Script.parseLines] at h
    split at h
    case isTrue => exact ih _ _ htrees h
    case isFalse =>
      split at h
      case h_1 => cases h
      case h_2 t ht =>
        refine ih _ _ ?_ h
        intro p hp
        rcases List.mem_append.mp hp with hp | hp
        · exact htrees p hp
        · rw [List.mem_singleton.mp hp]
          exact readAssignment_built trees _ t.1 t.2 ht

theorem importCatalog_built (folder : Option String) (n : String) (host host' : Host) (c : Catalog)
    (h : (Script.importCatalog folder n).run host = (.ok c, host')) : c.Built := by
  unfold Script.importCatalog at h
  split at h
  case h_1 =>
    cases h
    exact .empty
  case h_2 folder _ =>
    obtain ⟨d, host₁, -, h⟩ := (Effect.bind_eq_ok_iff _ _ _ _ _).mp h
    split at h
    case isTrue =>
      obtain ⟨text, host₂, -, h⟩ := (Effect.bind_eq_ok_iff _ _ _ _ _).mp h
      rw [Act.run_lift] at h
      exact Catalog.built_of_sidebar text _ c
        ((Result.mapError_eq_ok_iff _ _ _).mp (congrArg Prod.fst h))
    case isFalse =>
      obtain ⟨-, host₂, -, h⟩ := (Effect.bind_eq_ok_iff _ _ _ _ _).mp h
      cases h
      exact .empty

theorem importUnit_sound (folder : Option String) (r s : Registry) (item : String × Tree)
    (host host' : Host) (hr : r.Sound) (ht : item.2.Built)
    (h : (Script.importUnit folder r item).run host = (.ok s, host')) : s.Sound := by
  obtain ⟨c, host₁, hc, h⟩ := (Effect.bind_eq_ok_iff _ _ _ _ _).mp h
  obtain ⟨s', host₂, hs, h⟩ := (Effect.bind_eq_ok_iff _ _ _ _ _).mp h
  obtain ⟨-, host₃, -, h⟩ := (Effect.bind_eq_ok_iff _ _ _ _ _).mp h
  cases h
  rw [Act.run_lift] at hs
  have hadd := (Result.mapError_eq_ok_iff _ _ _).mp (congrArg Prod.fst hs)
  exact add_sound r s ⟨item.1, item.2, c⟩ hr ht (importCatalog_built folder _ _ _ c hc) hadd

theorem importFrom_sound (path : String) (folder : Option String) (host host' : Host)
    (r : Registry) (h : (Script.importFrom path folder).run host = (.ok r, host')) : r.Sound := by
  obtain ⟨text, host₁, -, h⟩ := (Effect.bind_eq_ok_iff _ _ _ _ _).mp h
  obtain ⟨trees, host₂, htrees, h⟩ := (Effect.bind_eq_ok_iff _ _ _ _ _).mp h
  obtain ⟨s, host₃, hs, h⟩ := (Effect.bind_eq_ok_iff _ _ _ _ _).mp h
  obtain ⟨-, host₄, -, h⟩ := (Effect.bind_eq_ok_iff _ _ _ _ _).mp h
  cases h
  rw [Act.run_lift] at htrees
  have hparse := (Result.mapError_eq_ok_iff _ _ _).mp (congrArg Prod.fst htrees)
  have hbuilt := parseLines_built _ _ _ _ _ (by simp) hparse
  have hsound : s.Sound := Effect.foldlM_keeps (Script.importUnit folder) Sound trees
    (fun r item hitem host s host' hr =>
      importUnit_sound folder r s item host host' hr (hbuilt item hitem).2)
    {} s host₂ host₃ sound_empty hs
  exact ⟨hsound.distinct, hsound.units⟩

theorem Reachable.sound (r : Registry) (h : r.Reachable) : r.Sound := by
  induction h with
  | empty => exact sound_empty
  | add r s u _ ht hc h ih => exact add_sound r s u ih ht hc h
  | register r s name tree catalog u _ ht hc h ih =>
    exact register_sound r s name tree catalog u ih ht hc h
  | freeze r _ ih => exact ⟨ih.distinct, ih.units⟩
  | change r place t _ ht ih => exact change_sound r place t ih ht
  | merge sources priority _ ih => exact merge_sound sources priority ih
  | decode text source r h => exact decode_sound text source r h
  | importFrom path folder host host' r h => exact importFrom_sound path folder host host' r h

end DocNavigation.Registry
