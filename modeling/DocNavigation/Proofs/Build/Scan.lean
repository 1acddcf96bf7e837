import DocNavigation.Proofs.Build.Order
import DocNavigation.Proofs.Json.Keys

/-!
Scans of source roots: whatever is on the disk, the units they give are built.
-/

namespace DocNavigation

namespace Scan

theorem built_insertAll (t u : Tree) (paths : List (List String)) (ht : t.Built)
    (h : insertAll t paths = .ok u) : u.Built := by
  refine Result.foldlM_keeps _ Tree.Built paths (fun t path _ next ht hnext => ?_) t u ht h
  cases hpath : Name.checkPath (path.map .str) with
  | error e =>
    rw [hpath] at hnext
    cases hnext
  | ok segments =>
    rw [hpath] at hnext
    have hsegments : Tree.segmentsOf (.arr (path.map .str)) = .ok segments := by
      rw [Tree.segmentsOf, hpath]
      rfl
    exact .edit t t next [] ht rfl (.insertFile t next _ segments hsegments hnext)

theorem built_tree (d : Disk) (o : ScanOptions) (path : String) (t : Tree)
    (h : tree d o path = .ok t) : t.Built := by
  unfold tree at h
  simp only at h
  split at h
  · obtain ⟨f, -, h⟩ := (Result.bind_eq_ok_iff _ _ _).mp h
    exact built_insertAll _ t _ (.empty "") ((Result.mapError_eq_ok_iff _ _ _).mp h)
  · cases h

end Scan

namespace Sidecar

theorem built_readRows (d : Disk) (path : String) (c : Catalog) (h : readRows d path = .ok c) :
    c.Built := by
  unfold readRows at h
  simp only at h
  split at h
  · cases h
  · cases h
  · split at h
    · cases h
    · rename_i v hread
      have hkeys := Json.here_of_everywhere _ v (Json.keys_of_read _ v hread)
      exact .ofJson v c hkeys ((Result.mapError_eq_ok_iff _ _ _).mp h)

theorem built_load (d : Disk) (root : String) (c : Catalog) (h : load d root = .ok c) :
    c.Built := by
  unfold load at h
  simp only at h
  split at h
  · exact built_readRows d _ c h
  split at h
  · unfold readScript at h
    split at h
    · cases h
    · exact Catalog.built_of_sidebar _ _ c ((Result.mapError_eq_ok_iff _ _ _).mp h)
  · cases h
    exact .empty

end Sidecar

namespace Build

/-- The parts of the unit that a task gives are built. -/
theorem built_task (o : ScanOptions) (unit root : String) (u : Component) (h h' : Host)
    (hrun : (ScanTask.run o unit root).run h = (.ok u, h')) : u.tree.Built ∧ u.catalog.Built := by
  obtain ⟨t, h₁, htree, hrun⟩ := (Effect.bind_eq_ok_iff _ _ _ _ _).mp hrun
  obtain ⟨c, h₂, hcatalog, hrun⟩ := (Effect.bind_eq_ok_iff _ _ _ _ _).mp hrun
  cases hrun
  refine ⟨?_, ?_⟩
  · obtain ⟨d, _, -, htree⟩ := (Effect.bind_eq_ok_iff _ _ _ _ _).mp htree
    obtain ⟨_, _, -, htree⟩ := (Effect.bind_eq_ok_iff _ _ _ _ _).mp htree
    obtain ⟨t', h₃, hscan, htree⟩ := (Effect.bind_eq_ok_iff _ _ _ _ _).mp htree
    obtain ⟨_, _, -, htree⟩ := (Effect.bind_eq_ok_iff _ _ _ _ _).mp htree
    cases htree
    rw [Act.run_lift] at hscan
    obtain ⟨hscan, -⟩ := Prod.mk.inj hscan
    exact Scan.built_tree d _ root t hscan
  · rw [Act.run_look] at hcatalog
    obtain ⟨hload, -⟩ := Prod.mk.inj hcatalog
    unfold ScanTask.catalog at hload
    split at hload
    · cases hload
    · exact Sidecar.built_load _ root c hload

/-- So are the units of a scan, once they are registered. -/
theorem scan_built (plan : Plan) (h h' : Host) (tasks : List Delivery)
    (hscan : (scan plan).run h = (.ok tasks, h')) : ∀ u ∈ Collection.yields tasks, u.Built := by
  intro u hu
  obtain ⟨d, hd, hyield⟩ := List.mem_filterMap.mp hu
  obtain ⟨root, -, hran⟩ := Result.exists_left_of_mem (scan_ran plan h h' tasks hscan) d hd
  rw [Collection.yield?] at hyield
  rcases hran with ⟨k, v, k', hrun, hv⟩ | ⟨message, hfailed⟩
  · obtain ⟨htree, hcatalog⟩ := built_task _ _ _ v k k' hrun
    simp only [hv, Outcome.parts] at hyield
    split at hyield
    case isFalse => cases hyield
    case isTrue hname =>
      cases hyield
      exact Component.Built.close _ ⟨hname, htree, hcatalog⟩
  · rw [hfailed] at hyield
    cases hyield

end Build

/-- A registry of built units is sound. -/
theorem Registry.ofUnits_sound (units : List Component) (r : Registry)
    (hunits : ∀ u ∈ units, u.Built) (h : ofUnits units = .ok r) : r.Sound :=
  Result.foldlM_keeps add Sound units
    (fun s u hu s' hs hadd => add_sound s s' u hs (hunits u hu).tree (hunits u hu).catalog hadd)
    {} r sound_empty h

/-- Units with names of their own can be registered. -/
theorem Registry.ofUnits_distinct (units : List Component) (hunits : ∀ u ∈ units, u.Built)
    (hnames : (units.map (·.name)).Nodup) : ∃ r, ofUnits units = .ok r := by
  have hfold : ∀ (units : List Component) (s : Registry), s.frozen = false →
      (∀ u ∈ units, u.Built) → (s.names ++ units.map (·.name)).Nodup →
      ∃ r, units.foldlM add s = .ok r := by
    intro units
    induction units with
    | nil => exact fun s _ _ _ => ⟨s, rfl⟩
    | cons u units ih =>
      intro s hs hunits hnames
      rw [List.forall_mem_cons] at hunits
      have hnew : u.name ∉ s.names := fun hu =>
        (List.nodup_append.mp hnames).2.2 u.name hu u.name List.mem_cons_self rfl
      let added : Registry := { s with units := s.units ++ [u.close] }
      have hadd : s.add u = .ok added := (add_eq_ok_iff s added u).mpr ⟨hunits.1.name, hs, hnew, rfl⟩
      have hadded : added.names = s.names ++ [u.name] := List.map_append
      rw [List.foldlM_cons, hadd]
      apply ih added hs hunits.2
      rw [hadded, List.append_assoc]
      exact hnames
  exact hfold units {} rfl hunits hnames

end DocNavigation
