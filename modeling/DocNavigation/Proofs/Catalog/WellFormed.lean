import DocNavigation.Catalog.Basic
import DocNavigation.Proofs.Json.Keys

/-!
Well-formed catalogs. No category comes twice or is empty, and within a category no name comes
twice. Additions keep a catalog well-formed.
-/

namespace DocNavigation.Catalog

structure OrderlyGroup (g : String × List CatalogItem) : Prop where
  category : g.1 ≠ ""
  items : g.2 ≠ []
  itemNames : ∀ i ∈ g.2, i.name ≠ ""
  distinct : (g.2.map (·.name)).Nodup

structure WellFormed (c : Catalog) : Prop where
  distinct : c.categories.Nodup
  groups : ∀ g ∈ c.groups, OrderlyGroup g

theorem contains_iff (c : Catalog) (category name : String) :
    c.contains category name = true ↔ name ∈ (c.items category).map (·.name) := by
  simp [contains, item?]

theorem add_eq_ok_iff (c d : Catalog) (category name summary : String) :
    c.add category name summary = .ok d ↔ c.isSealed = false ∧ category ≠ "" ∧ name ≠ "" ∧
      name ∉ (c.items category).map (·.name) ∧
      d = { c with groups := append c.groups category ⟨name, summary⟩ } := by
  rw [← contains_iff, Bool.not_eq_true, add]
  split
  case isTrue hsealed => simp [hsealed]
  split
  case isTrue hcategory => simp [hcategory]
  split
  case isTrue hname => simp [hname]
  split
  case isTrue hcontains => simp [hcontains]
  case isFalse hsealed hcategory hname hcontains =>
    simp only [hsealed, hcategory, hname, hcontains, ne_eq, not_false_eq_true, true_and,
      Except.ok.injEq, eq_comm]

theorem categories_append (groups : List (String × List CatalogItem)) (category : String)
    (item : CatalogItem) : (append groups category item).map (·.1) =
      if category ∈ groups.map (·.1) then groups.map (·.1) else groups.map (·.1) ++ [category] := by
  induction groups with
  | nil => simp [append]
  | cons g groups ih =>
    by_cases hg : g.1 = category
    · simp [append, hg]
    · simp only [append, if_neg hg, List.map_cons, ih, List.mem_cons, Ne.symm hg, false_or]
      split <;> rfl

theorem mem_append (groups : List (String × List CatalogItem)) (category : String)
    (item : CatalogItem) (g : String × List CatalogItem) (h : g ∈ append groups category item) :
    g ∈ groups ∨ g = (category, (Json.getKey? groups category).getD [] ++ [item]) := by
  induction groups with
  | nil => exact .inr (List.mem_singleton.mp h)
  | cons k groups ih =>
    by_cases hk : k.1 = category
    · simp only [append, if_pos hk] at h
      rcases List.mem_cons.mp h with rfl | h
      · exact .inr (by simp [Json.getKey?, hk])
      · exact .inl (List.mem_cons_of_mem _ h)
    · simp only [append, if_neg hk] at h
      have hkey : Json.getKey? (k :: groups) category = Json.getKey? groups category := by
        simp [Json.getKey?, hk]
      rw [hkey]
      rcases List.mem_cons.mp h with rfl | h
      · exact .inl (List.mem_cons_self ..)
      · exact (ih h).imp (List.mem_cons_of_mem _) id

theorem append_eq_put (groups : List (String × List CatalogItem)) (category : String)
    (item : CatalogItem) : append groups category item =
      Json.put groups category ((Json.getKey? groups category).getD [] ++ [item]) := by
  induction groups with
  | nil => rfl
  | cons g groups ih =>
    rw [append, Json.put, Json.getKey?_cons, ih]
    by_cases hg : g.1 = category
    · rw [if_pos hg, if_pos hg, if_pos hg]
      rfl
    · rw [if_neg hg, if_neg hg, if_neg hg]

theorem items_append (c : Catalog) (category : String) (item : CatalogItem) (k : String) :
    items { c with groups := append c.groups category item } k =
      if category = k then c.items k ++ [item] else c.items k := by
  rw [items, append_eq_put, Json.getKey?_put]
  split
  case isTrue heq =>
    rw [← heq]
    rfl
  case isFalse => rfl

theorem wellFormed_empty : WellFormed {} :=
  ⟨List.nodup_nil, nofun⟩

/-- The items of a category, whether there are any or not, have names that are distinct. -/
theorem WellFormed.items (c : Catalog) (hc : c.WellFormed) (category : String) :
    (∀ i ∈ c.items category, i.name ≠ "") ∧ ((c.items category).map (·.name)).Nodup := by
  cases hkey : Json.getKey? c.groups category with
  | none => simp [Catalog.items, hkey]
  | some is =>
    have hmem := (Json.getKey?_eq_some_iff c.groups hc.distinct category is).mp hkey
    have hgroup := hc.groups _ hmem
    simp only [Catalog.items, hkey, Option.getD_some]
    exact ⟨hgroup.itemNames, hgroup.distinct⟩

theorem add_wellFormed (c d : Catalog) (category name summary : String) (hc : c.WellFormed)
    (h : c.add category name summary = .ok d) : d.WellFormed := by
  obtain ⟨-, hcategory, hname, hnew, rfl⟩ := (add_eq_ok_iff c d category name summary).mp h
  refine ⟨?_, ?_⟩
  · change ((append c.groups category ⟨name, summary⟩).map (·.1)).Nodup
    rw [categories_append]
    split
    case isTrue => exact hc.distinct
    case isFalse habsent =>
      rw [← List.concat_eq_append]
      exact hc.distinct.concat habsent
  · intro g hg
    rcases mem_append c.groups category ⟨name, summary⟩ g hg with hg | rfl
    · exact hc.groups g hg
    · have hold := hc.items c category
      refine ⟨hcategory, by simp, ?_, ?_⟩
      · intro i hi
        rcases List.mem_append.mp hi with hi | hi
        · exact hold.1 i hi
        · rw [List.mem_singleton.mp hi]
          exact hname
      · rw [List.map_append, List.map_singleton, ← List.concat_eq_append]
        exact hold.2.concat hnew

end DocNavigation.Catalog
