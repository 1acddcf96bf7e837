import DocNavigation.Collect
import DocNavigation.Proofs.Registry.Add

/-!
What tasks add to a collection: each task that is taken back adds one item, the name of its unit to
what was registered, or one failure.
-/

namespace DocNavigation.Collection

abbrev Item := Except CollectionFailure String

/-- What a task comes to when these names are taken. -/
def item (frozen : Bool) (taken : List String) (d : Delivery) : Item :=
  match d.outcome.parts with
  | .error e => .error ⟨d.label, e, false⟩
  | .ok (name, _, _) =>
    match Name.check "unit" name with
    | .error e => .error ⟨d.label, e.message, false⟩
    | .ok n =>
      if frozen then .error ⟨d.label, RegistryError.frozen.message, false⟩
      else if n ∈ taken then .error ⟨d.label, RegistryError.message (.duplicate n), true⟩
      else .ok n

def failure? : Item → Option CollectionFailure
  | .ok _ => none
  | .error f => some f

def namesOf (items : List Item) : List String :=
  items.filterMap Except.toOption

def failuresOf (items : List Item) : List CollectionFailure :=
  items.filterMap failure?

/-- A unit of this name was produced. -/
def Produced (d : Delivery) (n : String) : Prop :=
  Name.isSegment n = true ∧ ∃ tree catalog, d.outcome.parts = .ok (.str n, tree, catalog)

theorem namesOf_append (is js : List Item) : namesOf (is ++ js) = namesOf is ++ namesOf js :=
  List.filterMap_append

theorem failuresOf_append (is js : List Item) :
    failuresOf (is ++ js) = failuresOf is ++ failuresOf js :=
  List.filterMap_append

theorem length_items (items : List Item) :
    (namesOf items).length + (failuresOf items).length = items.length := by
  induction items with
  | nil => rfl
  | cons i items ih =>
    cases i with
    | ok n =>
      simp only [namesOf, failuresOf, List.filterMap_cons, Except.toOption, failure?,
        List.length_cons] at ih ⊢
      omega
    | error f =>
      simp only [namesOf, failuresOf, List.filterMap_cons, Except.toOption, failure?,
        List.length_cons] at ih ⊢
      omega

section
variable (frozen : Bool) (taken : List String) (d : Delivery) (n : String)

theorem produced_unique (m : String) (hn : Produced d n) (hm : Produced d m) : n = m := by
  obtain ⟨-, tree, catalog, hn⟩ := hn
  obtain ⟨-, tree', catalog', hm⟩ := hm
  rw [hn] at hm
  cases hm
  rfl

theorem item_of_produced (h : Produced d n) : item frozen taken d =
    if frozen then .error ⟨d.label, RegistryError.frozen.message, false⟩
    else if n ∈ taken then .error ⟨d.label, RegistryError.message (.duplicate n), true⟩
    else .ok n := by
  obtain ⟨hname, tree, catalog, hparts⟩ := h
  simp only [item, hparts, Name.check_str "unit" n hname]

theorem item_of_none (h : ∀ m, ¬ Produced d m) :
    ∃ e, item frozen taken d = .error ⟨d.label, e, false⟩ := by
  rw [item]
  cases hparts : d.outcome.parts with
  | error e => exact ⟨e, rfl⟩
  | ok parts =>
    obtain ⟨name, tree, catalog⟩ := parts
    cases hname : Name.check "unit" name with
    | error e => exact ⟨e.message, by simp only [hname]⟩
    | ok m =>
      obtain ⟨rfl, hsegment⟩ := Name.isSegment_of_check "unit" name m hname
      exact absurd ⟨hsegment, tree, catalog, hparts⟩ (h m)

theorem item_eq_ok_iff :
    item frozen taken d = .ok n ↔ frozen = false ∧ Produced d n ∧ n ∉ taken := by
  by_cases hproduced : ∃ m, Produced d m
  · obtain ⟨m, hm⟩ := hproduced
    rw [item_of_produced frozen taken d m hm]
    constructor
    · intro h
      split at h
      case isTrue => cases h
      case isFalse hfrozen =>
        split at h
        case isTrue => cases h
        case isFalse hnew =>
          cases h
          exact ⟨eq_false_of_ne_true hfrozen, hm, hnew⟩
    · rintro ⟨hopen, hn, hnew⟩
      obtain rfl := produced_unique d n m hn hm
      simp [hopen, hnew]
  · have hnone : ∀ m, ¬ Produced d m := fun m hm => hproduced ⟨m, hm⟩
    obtain ⟨e, he⟩ := item_of_none frozen taken d hnone
    rw [he]
    constructor
    · exact nofun
    · exact fun h => absurd h.2.1 (hnone n)

theorem item_eq_error (f : CollectionFailure) (h : item frozen taken d = .error f) :
    f.task = d.label ∧
      (f.duplicate = true ↔ frozen = false ∧ ∃ n, Produced d n ∧ n ∈ taken) := by
  by_cases hproduced : ∃ m, Produced d m
  · obtain ⟨m, hm⟩ := hproduced
    have huniq : (∃ n, Produced d n ∧ n ∈ taken) ↔ m ∈ taken := by
      constructor
      · rintro ⟨n, hn, htaken⟩
        rw [← produced_unique d n m hn hm]
        exact htaken
      · exact fun htaken => ⟨m, hm, htaken⟩
    rw [item_of_produced frozen taken d m hm] at h
    rw [huniq]
    split at h
    case isTrue hfrozen =>
      cases h
      simp [hfrozen]
    case isFalse hfrozen =>
      split at h
      case isTrue hold =>
        cases h
        simp [hfrozen, hold]
      case isFalse => cases h
  · have hnone : ∀ m, ¬ Produced d m := fun m hm => hproduced ⟨m, hm⟩
    obtain ⟨e, he⟩ := item_of_none frozen taken d hnone
    rw [he] at h
    cases h
    simp [hnone]

end

/-- What is added to a collection by these items. -/
structure Adds (c c' : Collection) (items : List Item) : Prop where
  names : c'.registry.names = c.registry.names ++ namesOf items
  units : c.registry.units <+: c'.registry.units
  frozen : c'.registry.frozen = c.registry.frozen
  registered : c'.registered = c.registered ++ namesOf items
  failures : c'.failures = c.failures ++ failuresOf items

theorem Adds.nil (c : Collection) : Adds c c [] :=
  ⟨by simp [namesOf], List.prefix_refl _, rfl, by simp [namesOf], by simp [failuresOf]⟩

theorem Adds.trans (c c' c'' : Collection) (is js : List Item) (h : Adds c c' is)
    (h' : Adds c' c'' js) : Adds c c'' (is ++ js) := by
  refine ⟨?_, h.units.trans h'.units, h'.frozen.trans h.frozen, ?_, ?_⟩
  · rw [h'.names, h.names, namesOf_append, List.append_assoc]
  · rw [h'.registered, h.registered, namesOf_append, List.append_assoc]
  · rw [h'.failures, h.failures, failuresOf_append, List.append_assoc]

theorem fail_adds (c : Collection) (f : CollectionFailure) (n : Note) :
    Adds c (c.fail f n) [.error f] :=
  ⟨(List.append_nil _).symm, List.prefix_refl _, rfl, (List.append_nil _).symm, rfl⟩

theorem take_adds (c : Collection) (d : Delivery) :
    Adds c (c.take d) [item c.registry.frozen c.registry.names d] := by
  rw [take, item]
  cases hparts : d.outcome.parts with
  | error e => exact fail_adds c _ _
  | ok parts =>
    obtain ⟨name, tree, catalog⟩ := parts
    simp only [add, Registry.register_eq]
    cases hname : Name.check "unit" name with
    | error e => exact fail_adds c _ _
    | ok n =>
      by_cases hfrozen : c.registry.frozen = true
      · simp only [if_pos hfrozen]
        exact fail_adds c _ _
      by_cases hold : n ∈ c.registry.names
      · simp only [if_neg hfrozen, if_pos hold]
        exact fail_adds c _ _
      · simp only [if_neg hfrozen, if_neg hold]
        refine ⟨?_, List.prefix_append _ _, rfl, rfl, (List.append_nil _).symm⟩
        rw [Registry.names, Registry.names, List.map_append]
        rfl

/-- One item for each task; the names that come first are taken for those that follow. -/
def items (frozen : Bool) : List String → List Delivery → List Item
  | _, [] => []
  | taken, d :: ds =>
    item frozen taken d :: items frozen (taken ++ namesOf [item frozen taken d]) ds

theorem foldl_take_adds (ds : List Delivery) (c : Collection) :
    Adds c (ds.foldl take c) (items c.registry.frozen c.registry.names ds) := by
  induction ds generalizing c with
  | nil => exact .nil c
  | cons d ds ih =>
    have hone := take_adds c d
    have hrest := ih (c.take d)
    -- the names that are taken by now are those of the registry
    rw [hone.names, hone.frozen] at hrest
    exact Adds.trans c (c.take d) _ _ _ hone hrest

theorem items_getElem? (frozen : Bool) (ds : List Delivery) (taken : List String) (i : Nat) :
    (items frozen taken ds)[i]? =
      ds[i]?.map (item frozen (taken ++ namesOf ((items frozen taken ds).take i))) := by
  induction ds generalizing taken i with
  | nil => rfl
  | cons d ds ih =>
    rw [items]
    cases i with
    | zero => simp [namesOf]
    | succ i =>
      rw [List.getElem?_cons_succ, List.getElem?_cons_succ, ih, List.take_succ_cons,
        List.append_assoc, ← namesOf_append, List.singleton_append]

theorem items_length (frozen : Bool) (ds : List Delivery) (taken : List String) :
    (items frozen taken ds).length = ds.length := by
  induction ds generalizing taken with
  | nil => rfl
  | cons d ds ih => rw [items, List.length_cons, List.length_cons, ih]

end DocNavigation.Collection
