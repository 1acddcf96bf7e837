import DocNavigation.Proofs.Component
import DocNavigation.Registry

/-!
Adding units to registries, and looking them up by name.
-/

namespace DocNavigation.Registry

theorem contains_iff (r : Registry) (n : String) : r.contains n = true ↔ n ∈ r.names := by
  simp [contains, names]

theorem add_eq_ok_iff (r s : Registry) (u : Component) :
    r.add u = .ok s ↔ Name.isSegment u.name = true ∧ r.frozen = false ∧ u.name ∉ r.names ∧
      s = { r with units := r.units ++ [u.close] } := by
  rw [← contains_iff, Bool.not_eq_true, add]
  by_cases hname : Name.isSegment u.name = true
  · rw [Name.check_str "unit" u.name hname]
    by_cases hfrozen : r.frozen = true
    · simp [hfrozen]
    · by_cases hold : r.contains u.name = true
      · simp [hfrozen, hold]
      · simp [hname, hfrozen, hold, eq_comm]
  · simp [Name.check, hname]

theorem add_names (r s : Registry) (u : Component) (h : r.add u = .ok s) :
    s.names = r.names ++ [u.name] := by
  obtain ⟨-, -, -, rfl⟩ := (add_eq_ok_iff r s u).mp h
  simp [names, Component.close]

theorem get_eq_ok_iff (r : Registry) (h : r.names.Nodup) (n : String) (u : Component) :
    r.get n = .ok u ↔ u ∈ r.units ∧ u.name = n := by
  rw [← Component.find?_eq_some_iff r.units h n u, get, get?]
  cases r.units.find? (·.name = n) <;> simp

/-- An attempt to register is decided by the name alone, then by the seal of the registry, then by
its names. -/
theorem register_eq (r : Registry) (name : Json) (t : Tree) (catalog : Catalog) :
    r.register name t catalog =
      match Name.check "unit" name with
      | .error e => .error (.name e)
      | .ok n =>
        let u := Component.close ⟨n, t, catalog⟩
        if r.frozen then .error .frozen
        else if n ∈ r.names then .error (.duplicate n)
        else .ok ({ r with units := r.units ++ [u] }, u) := by
  cases name with
  | str n =>
    rw [register, add]
    by_cases hname : Name.isSegment n = true
    case neg => simp [Name.check, hname, Except.map]
    rw [Name.check_str "unit" n hname]
    have hnames : r.contains n = decide (n ∈ r.names) := by
      rw [Bool.eq_iff_iff, contains_iff, decide_eq_true_iff]
    rw [hnames]
    by_cases hfrozen : r.frozen = true
    · simp [hfrozen, Except.map]
    · by_cases hold : n ∈ r.names <;> simp [hfrozen, hold, Except.map]
  | _ => rfl

theorem register_eq_ok_iff (r s : Registry) (name : Json) (t : Tree) (catalog : Catalog)
    (u : Component) : r.register name t catalog = .ok (s, u) ↔
      ∃ n, name = .str n ∧ u = Component.close ⟨n, t, catalog⟩ ∧ r.add ⟨n, t, catalog⟩ = .ok s := by
  cases name with
  | str n =>
    rw [register, Result.map_eq_ok_iff]
    simp only [Prod.mk.injEq, Json.str.injEq]
    constructor
    · rintro ⟨s', hadd, rfl, rfl⟩
      exact ⟨n, rfl, rfl, hadd⟩
    · rintro ⟨n', rfl, rfl, hadd⟩
      exact ⟨s, hadd, rfl, rfl⟩
  | _ => simp [register]

theorem register_tree (r s : Registry) (name : Json) (t : Tree) (catalog : Catalog)
    (u : Component) (h : r.register name t catalog = .ok (s, u)) : u.tree = t.close := by
  obtain ⟨n, -, rfl, -⟩ := (register_eq_ok_iff r s name t catalog u).mp h
  rfl

end DocNavigation.Registry
