import DocNavigation.Catalog.Json
import DocNavigation.Proofs.Catalog.WellFormed
import DocNavigation.Proofs.Named
import DocNavigation.Proofs.Result
import DocNavigation.Script.Basic

/-!
Which values spell catalogs. Reading gives a catalog exactly for those, and a well-formed catalog is
spelled by the value written for it. Every catalog that the operations can build is well-formed.
-/

namespace DocNavigation.Catalog

/-- Whatever follows the two texts of a row does not matter. -/
def SpellsItem (row : Json) (i : CatalogItem) : Prop :=
  ∃ more, row = .arr (.str i.name :: .str i.summary :: more)

structure SpellsGroup (field : String × Json) (g : String × List CatalogItem) : Prop where
  category : g.1 = field.1
  rows : ∃ rows, field.2 = .arr rows ∧ List.Forall₂ SpellsItem rows g.2
  named : g.2 ≠ [] → g.1 ≠ ""
  itemNames : ∀ i ∈ g.2, i.name ≠ ""
  distinct : (g.2.map (·.name)).Nodup

/-- Categories without rows leave nothing behind. -/
def filled (groups : List (String × List CatalogItem)) : List (String × List CatalogItem) :=
  groups.filter fun g => !g.2.isEmpty

/-- The value is an object that spells the groups of the catalog one by one. -/
def Spells (v : Json) (c : Catalog) : Prop :=
  ∃ fields groups, v = .obj fields ∧ List.Forall₂ SpellsGroup fields groups ∧
    c = ⟨filled groups, false⟩

section
variable (done : List (String × List CatalogItem)) (category : String)

theorem items_of_last (hnew : category ∉ done.map (·.1)) (is : List CatalogItem) :
    items ⟨done ++ filled [(category, is)], false⟩ category = is := by
  have hdone : done.find? (fun g => decide (g.1 = category)) = none := by
    rw [List.find?_eq_none]
    intro g hg hkey
    exact hnew (of_decide_eq_true hkey ▸ List.mem_map_of_mem hg)
  cases is with
  | nil => simp [items, filled, Json.getKey?, hdone]
  | cons i is => simp [items, filled, Json.getKey?, List.find?_append, hdone]

theorem append_last (hnew : category ∉ done.map (·.1)) (is : List CatalogItem) (i : CatalogItem) :
    append (done ++ filled [(category, is)]) category i =
      done ++ filled [(category, is ++ [i])] := by
  induction done with
  | nil => cases is <;> simp [filled, append]
  | cons g done ih =>
    rw [List.map_cons, List.mem_cons, not_or] at hnew
    rw [List.cons_append, append, if_neg (Ne.symm hnew.1), ih hnew.2]
    rfl

theorem addRow_eq_ok_iff (hnew : category ∉ done.map (·.1)) (is : List CatalogItem) (row : Json)
    (d : Catalog) :
    addRow ⟨done ++ filled [(category, is)], false⟩ category row = .ok d ↔
      ∃ i, SpellsItem row i ∧ category ≠ "" ∧ i.name ≠ "" ∧ i.name ∉ is.map (·.name) ∧
        d = ⟨done ++ filled [(category, is ++ [i])], false⟩ := by
  unfold addRow
  split
  case h_1 name summary more =>
    rw [Result.mapError_eq_ok_iff, add_eq_ok_iff, items_of_last done category hnew,
      append_last done category hnew]
    constructor
    · rintro ⟨-, hcategory, hname, hfree, rfl⟩
      exact ⟨⟨name, summary⟩, ⟨more, rfl⟩, hcategory, hname, hfree, rfl⟩
    · rintro ⟨⟨n, s⟩, ⟨more', hrow⟩, hcategory, hname, hfree, rfl⟩
      cases hrow
      exact ⟨rfl, hcategory, hname, hfree, rfl⟩
  case h_2 hrow =>
    refine ⟨nofun, ?_⟩
    rintro ⟨i, ⟨more, rfl⟩, -⟩
    exact absurd rfl (hrow _ _ _)

/-- Rows are added one by one to the last group. -/
theorem foldlM_addRow_eq_ok_iff (hnew : category ∉ done.map (·.1)) (rows : List Json)
    (is : List CatalogItem) (d : Catalog) :
    rows.foldlM (fun (c : Catalog) row => c.addRow category row)
        ⟨done ++ filled [(category, is)], false⟩ = .ok d ↔
      ∃ more, List.Forall₂ SpellsItem rows more ∧ (more ≠ [] → category ≠ "") ∧
        (∀ i ∈ more, i.name ≠ "") ∧ (more.map (·.name)).Nodup ∧
        (∀ i ∈ more, i.name ∉ is.map (·.name)) ∧
        d = ⟨done ++ filled [(category, is ++ more)], false⟩ := by
  induction rows generalizing is with
  | nil =>
    constructor
    · intro h
      cases h
      exact ⟨[], .nil, by simp, nofun, List.nodup_nil, nofun, by rw [List.append_nil]⟩
    · rintro ⟨more, hrows, -, -, -, -, rfl⟩
      cases hrows
      rw [List.append_nil]
      rfl
  | cons row rows ih =>
    -- the other rows are added beside the first one
    have hnews := fun (i : CatalogItem) more =>
      Named.new_cons_iff (·.name) i more (is.map (·.name)) ((is ++ [i]).map (·.name)) (by simp)
    rw [List.foldlM_cons, Result.bind_eq_ok_iff]
    constructor
    · rintro ⟨c, hc, h⟩
      obtain ⟨i, hrow, hcategory, hname, hfree, rfl⟩ :=
        (addRow_eq_ok_iff done category hnew is row c).mp hc
      obtain ⟨more, hrows, -, hnames, hnodup, hfrees, rfl⟩ := (ih _).mp h
      obtain ⟨hnodup, hfree⟩ := (hnews i more).mpr ⟨hfree, hnodup, hfrees⟩
      exact ⟨i :: more, .cons hrow hrows, fun _ => hcategory,
        List.forall_mem_cons.mpr ⟨hname, hnames⟩, hnodup, hfree, by simp⟩
    · rintro ⟨more, hrows, hcategory, hnames, hnodup, hfrees, rfl⟩
      cases hrows with
      | cons hrow hrows =>
        rename_i i more
        rw [List.forall_mem_cons] at hnames
        obtain ⟨hfree, hnodup, hfrees⟩ := (hnews i more).mp ⟨hnodup, hfrees⟩
        refine ⟨_, (addRow_eq_ok_iff done category hnew is row _).mpr
          ⟨i, hrow, hcategory (by simp), hnames.1, hfree, rfl⟩, (ih _).mpr ?_⟩
        exact ⟨more, hrows, fun _ => hcategory (by simp), hnames.2, hnodup, hfrees, by simp⟩

theorem addRows_eq_ok_iff (hnew : category ∉ done.map (·.1)) (v : Json) (d : Catalog) :
    addRows ⟨done, false⟩ category v = .ok d ↔
      ∃ g, SpellsGroup (category, v) g ∧ d = ⟨done ++ filled [g], false⟩ := by
  have hstart : done = done ++ filled [(category, [])] := by simp [filled]
  unfold addRows
  split
  case h_1 rows =>
    have hfold := foldlM_addRow_eq_ok_iff done category hnew rows [] d
    rw [← hstart] at hfold
    rw [hfold]
    constructor
    · rintro ⟨more, hrows, hcategory, hnames, hnodup, -, rfl⟩
      exact ⟨(category, more), ⟨rfl, ⟨rows, rfl, hrows⟩, hcategory, hnames, hnodup⟩, rfl⟩
    · rintro ⟨⟨c, more⟩, ⟨rfl, ⟨rows', hrows', hrows⟩, hcategory, hnames, hnodup⟩, rfl⟩
      cases hrows'
      exact ⟨more, hrows, hcategory, hnames, hnodup, by simp, rfl⟩
  case h_2 hv =>
    refine ⟨nofun, ?_⟩
    rintro ⟨g, ⟨-, ⟨rows, hrows, -⟩, -⟩, -⟩
    exact absurd hrows (hv rows)

end

theorem filled_cons (g : String × List CatalogItem) (gs : List (String × List CatalogItem)) :
    filled (g :: gs) = filled [g] ++ filled gs := by
  simp [filled, List.filter_cons]
  split <;> rfl

/-- The keys still to come are new to the groups that are done. -/
theorem foldlM_addRows_eq_ok_iff (fields : List (String × Json))
    (done : List (String × List CatalogItem)) (d : Catalog)
    (hkeys : (done.map (·.1) ++ fields.map (·.1)).Nodup) :
    fields.foldlM (fun (c : Catalog) f => c.addRows f.1 f.2) ⟨done, false⟩ = .ok d ↔
      ∃ groups, List.Forall₂ SpellsGroup fields groups ∧ d = ⟨done ++ filled groups, false⟩ := by
  induction fields generalizing done with
  | nil =>
    constructor
    · intro h
      cases h
      exact ⟨[], .nil, by simp [filled]⟩
    · rintro ⟨groups, hgroups, rfl⟩
      cases hgroups
      simp [filled, pure, Except.pure]
  | cons f fields ih =>
    obtain ⟨category, v⟩ := f
    have hnew : category ∉ done.map (·.1) := fun hmem =>
      (List.nodup_append.mp hkeys).2.2 _ hmem _ (List.mem_cons_self ..) rfl
    -- what holds before a field holds after it, whether its group has entries or not
    have hnext : ∀ g, SpellsGroup (category, v) g →
        ((done ++ filled [g]).map (·.1) ++ fields.map (·.1)).Nodup := by
      intro g hg
      have hone : ((filled [g]).map (·.1)).Sublist [category] := by
        have hfilled : ((filled [g]).map (·.1)).Sublist ([g].map (·.1)) := List.filter_sublist.map _
        rw [List.map_singleton, hg.category] at hfilled
        exact hfilled
      rw [List.map_append, List.append_assoc]
      exact hkeys.sublist ((hone.append_right _).append_left _)
    rw [List.foldlM_cons, Result.bind_eq_ok_iff]
    constructor
    · rintro ⟨c, hc, h⟩
      obtain ⟨g, hg, rfl⟩ := (addRows_eq_ok_iff done category hnew v c).mp hc
      obtain ⟨groups, hgroups, rfl⟩ := (ih _ (hnext g hg)).mp h
      exact ⟨g :: groups, .cons hg hgroups, by rw [filled_cons g groups, List.append_assoc]⟩
    · rintro ⟨groups, hgroups, rfl⟩
      cases hgroups with
      | cons hg hgroups =>
        rename_i g groups
        refine ⟨_, (addRows_eq_ok_iff done category hnew v _).mpr ⟨g, hg, rfl⟩, ?_⟩
        refine (ih _ (hnext g hg)).mpr ⟨groups, hgroups, ?_⟩
        rw [filled_cons g groups, List.append_assoc]

theorem ofJson_eq_ok_iff (v : Json) (c : Catalog) (hv : v.DistinctKeys) :
    ofJson v = .ok c ↔ Spells v c := by
  cases v with
  | obj fields =>
    have hfold := foldlM_addRows_eq_ok_iff fields [] c hv
    change fields.foldlM (fun (c : Catalog) f => c.addRows f.1 f.2) ⟨[], false⟩ = .ok c ↔ _
    rw [hfold]
    constructor
    · rintro ⟨groups, hgroups, rfl⟩
      exact ⟨fields, groups, rfl, hgroups, rfl⟩
    · rintro ⟨_, groups, hfields, hgroups, rfl⟩
      cases hfields
      exact ⟨groups, hgroups, rfl⟩
  | _ =>
    refine ⟨nofun, ?_⟩
    rintro ⟨_, _, hfields, -⟩
    cases hfields

theorem categories_of_spells (fields : List (String × Json))
    (groups : List (String × List CatalogItem)) (h : List.Forall₂ SpellsGroup fields groups) :
    groups.map (·.1) = fields.map (·.1) := by
  induction h with
  | nil => rfl
  | cons hg _ ih => rw [List.map_cons, List.map_cons, hg.category, ih]

theorem spells_wellFormed (v : Json) (c : Catalog) (hv : v.DistinctKeys) (h : Spells v c) :
    c.WellFormed := by
  obtain ⟨fields, groups, rfl, hgroups, rfl⟩ := h
  have hnodup : (groups.map (·.1)).Nodup := by
    rw [categories_of_spells fields groups hgroups]
    exact hv
  refine ⟨hnodup.sublist (List.filter_sublist.map _), ?_⟩
  intro g hg
  obtain ⟨hmem, hfull⟩ := List.mem_filter.mp hg
  have hitems : g.2 ≠ [] := by simpa using hfull
  obtain ⟨field, -, hspells⟩ := Result.exists_left_of_mem hgroups g hmem
  exact ⟨hspells.named hitems, hitems, hspells.itemNames, hspells.distinct⟩

theorem ofJson_wellFormed (v : Json) (c : Catalog) (hv : v.DistinctKeys) (h : ofJson v = .ok c) :
    c.WellFormed :=
  spells_wellFormed v c hv ((ofJson_eq_ok_iff v c hv).mp h)

theorem filled_groups (c : Catalog) (hc : c.WellFormed) : filled c.groups = c.groups := by
  refine List.filter_eq_self.mpr fun g hg => ?_
  simpa using (hc.groups g hg).items

theorem spells_toJson (c : Catalog) (hc : c.WellFormed) : Spells c.toJson c.copy := by
  refine ⟨c.toFields, c.groups, rfl, ?_, ?_⟩
  · rw [toFields, List.forall₂_map_left_iff, List.forall₂_same]
    intro g hg
    have hgroup := hc.groups g hg
    refine ⟨rfl, ⟨g.2.map itemRow, rfl, ?_⟩, fun _ => hgroup.category, hgroup.itemNames,
      hgroup.distinct⟩
    rw [List.forall₂_map_left_iff, List.forall₂_same]
    intro i _
    exact ⟨[], rfl⟩
  · rw [filled_groups c hc]
    rfl

theorem toJson_distinctKeys (c : Catalog) (hc : c.WellFormed) : c.toJson.DistinctKeys := by
  change (c.toFields.map (·.1)).Nodup
  rw [toFields, List.map_map]
  exact hc.distinct

theorem ofJson_toJson (c : Catalog) (hc : c.WellFormed) : ofJson c.toJson = .ok c.copy :=
  (ofJson_eq_ok_iff _ _ (toJson_distinctKeys c hc)).mpr (spells_toJson c hc)

inductive Built : Catalog → Prop
  | empty : Built {}
  | addValues (c d : Catalog) (category name summary : Json) (e : CatalogEntry) (hc : Built c)
      (h : c.addValues category name summary = .ok (d, e)) : Built d
  | close (c : Catalog) (hc : Built c) : Built c.close
  | copy (c : Catalog) (hc : Built c) : Built c.copy
  | ofJson (v : Json) (c : Catalog) (hv : v.DistinctKeys) (h : ofJson v = .ok c) : Built c

/-- Adding values comes down to adding texts. -/
theorem add_of_addValues (c d : Catalog) (category name summary : Json) (e : CatalogEntry)
    (h : c.addValues category name summary = .ok (d, e)) :
    category = .str e.category ∧ name = .str e.name ∧ summary = .str e.summary ∧
      c.add e.category e.name e.summary = .ok d := by
  unfold addValues at h
  split at h
  case isTrue => cases h
  split at h
  case h_1 => cases h
  case h_3 => cases h
  split at h
  case h_1 => cases h
  case h_3 => cases h
  split at h
  case h_2 => cases h
  obtain ⟨c, hadd, heq⟩ := (Result.map_eq_ok_iff _ _ _).mp h
  cases heq
  exact ⟨rfl, rfl, rfl, hadd⟩

theorem Built.wellFormed (c : Catalog) (h : c.Built) : c.WellFormed := by
  induction h with
  | empty => exact wellFormed_empty
  | addValues c d category name summary e _ h ih =>
    exact add_wellFormed c d _ _ _ ih (add_of_addValues c d category name summary e h).2.2.2
  | close c _ ih => exact ⟨ih.distinct, ih.groups⟩
  | copy c _ ih => exact ⟨ih.distinct, ih.groups⟩
  | ofJson v c hv h => exact ofJson_wellFormed v c hv h

theorem built_of_sidebar (text : String) (source : Option String) (c : Catalog)
    (h : Sidebar.parse text source = .ok c) : c.Built := by
  have hitems := (Result.mapError_eq_ok_iff _ _ _).mp h
  unfold Sidebar.parseItems at hitems
  split at hitems
  case h_1 => cases hitems
  case h_2 =>
    split at hitems
    case h_1 => cases hitems
    case h_2 fields _ =>
      exact .ofJson (.obj _) c (Json.putAll_nodup [] _ List.nodup_nil) hitems
    case h_3 => cases hitems

end DocNavigation.Catalog
