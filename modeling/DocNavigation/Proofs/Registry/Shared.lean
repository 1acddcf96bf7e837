import DocNavigation.Proofs.Registry.Add
import DocNavigation.Proofs.Tree.Handles

/-!
A registry that holds its units by reference. Their trees and catalogs stay where their makers put
them and may be shared with others; registering closes them in place. The registry as a value is
what is read through the references. What was registered reads the same ever after, whatever else is
registered.
-/

namespace DocNavigation

/-- A unit whose tree and catalog may be in other hands too. -/
structure SharedUnit where
  name : String
  tree : Handle
  catalog : Nat
deriving DecidableEq, Repr

structure SharedRegistry where
  grove : Grove := {}
  catalogs : List Catalog := []
  entries : List SharedUnit := []
  frozen : Bool := false
deriving Repr

namespace SharedRegistry

def names (s : SharedRegistry) : List String :=
  s.entries.map (·.name)

/-- The unit as it is now. -/
def read (s : SharedRegistry) (u : SharedUnit) : Component :=
  ⟨u.name, s.grove.node u.tree, s.catalogs[u.catalog]?.getD {}⟩

def view (s : SharedRegistry) : Registry :=
  ⟨s.entries.map s.read, s.frozen⟩

/-- Closes the unit in place and puts it at the end. -/
def accept (s : SharedRegistry) (u : SharedUnit) : SharedRegistry :=
  { s with
    grove := s.grove.close u.tree
    catalogs := s.catalogs.modify u.catalog Catalog.close
    entries := s.entries ++ [u] }

def register (s : SharedRegistry) (name : Json) (tree : Handle) (catalog : Nat) :
    SharedRegistry × Except RegistryError SharedUnit :=
  match s.view.register name (s.grove.node tree) (s.catalogs[catalog]?.getD {}) with
  | .error e => (s, .error e)
  | .ok (_, v) => (s.accept ⟨v.name, tree, catalog⟩, .ok ⟨v.name, tree, catalog⟩)

def freeze (s : SharedRegistry) : SharedRegistry :=
  { s with frozen := true }

def get (s : SharedRegistry) (n : String) : Except RegistryError SharedUnit :=
  match s.entries.find? (·.name = n) with
  | some u => .ok u
  | none => .error (.notFound n)

theorem names_view (s : SharedRegistry) : s.view.names = s.names := by
  simp only [view, Registry.names, names, List.map_map]
  rfl

theorem register_eq (s : SharedRegistry) (name : Json) (tree : Handle) (catalog : Nat) :
    s.register name tree catalog =
      match Name.check "unit" name with
      | .error e => (s, .error (.name e))
      | .ok n =>
        if s.frozen then (s, .error .frozen)
        else if n ∈ s.names then (s, .error (.duplicate n))
        else (s.accept ⟨n, tree, catalog⟩, .ok ⟨n, tree, catalog⟩) := by
  have hfrozen : s.view.frozen = s.frozen := rfl
  rw [register, Registry.register_eq, names_view, hfrozen]
  cases Name.check "unit" name with
  | error e => rfl
  | ok n =>
    by_cases hopen : s.frozen = true
    · simp [hopen]
    · by_cases hold : n ∈ s.names <;> simp [hopen, hold, Component.close]

/-- The tree and the catalog are there. -/
structure Holds (s : SharedRegistry) (tree : Handle) (catalog : Nat) : Prop where
  tree : (s.grove.node? tree).isSome = true
  catalog : catalog < s.catalogs.length

instance (s : SharedRegistry) (tree : Handle) (catalog : Nat) :
    Decidable (s.Holds tree catalog) :=
  decidable_of_iff ((s.grove.node? tree).isSome = true ∧ catalog < s.catalogs.length)
    ⟨fun h => ⟨h.1, h.2⟩, fun h => ⟨h.tree, h.catalog⟩⟩

/-- The tree is closed in every node, and so is the catalog. -/
structure Closed (s : SharedRegistry) (u : SharedUnit) : Prop where
  tree : ∃ t : Tree, s.grove.node? u.tree = some t.close
  catalog : ∃ c : Catalog, s.catalogs[u.catalog]? = some c.close

structure Sound (s : SharedRegistry) : Prop where
  distinct : s.names.Nodup
  units : ∀ u ∈ s.entries, s.Closed u

/-- What the state can have become since: no entry was lost, what was closed stayed as it was, and a
frozen registry took nothing more. -/
structure Later (s s' : SharedRegistry) : Prop where
  entries : s.entries <+: s'.entries
  frozen : s.frozen = true → s'.frozen = true ∧ s'.entries = s.entries
  trees : ∀ (h : Handle) (t : Tree), s.grove.node? h = some t.close → s'.grove.node? h = some t.close
  catalogs : ∀ (n : Nat) (c : Catalog), s.catalogs[n]? = some c.close → s'.catalogs[n]? = some c.close
  holds : ∀ (tree : Handle) (catalog : Nat), s.Holds tree catalog → s'.Holds tree catalog

theorem Later.refl (s : SharedRegistry) : Later s s :=
  ⟨List.prefix_refl _, fun h => ⟨h, rfl⟩, fun _ _ h => h, fun _ _ h => h, fun _ _ h => h⟩

theorem Later.trans {s s' s'' : SharedRegistry} (h : Later s s') (h' : Later s' s'') :
    Later s s'' := by
  refine ⟨h.entries.trans h'.entries, fun hfrozen => ?_, fun k t ht => h'.trees k t (h.trees k t ht),
    fun n c hc => h'.catalogs n c (h.catalogs n c hc), fun k n hk => h'.holds k n (h.holds k n hk)⟩
  obtain ⟨hstill, hsame⟩ := h.frozen hfrozen
  obtain ⟨hlast, hlastSame⟩ := h'.frozen hstill
  exact ⟨hlast, hlastSame.trans hsame⟩

theorem Later.closed {s s' : SharedRegistry} (h : Later s s') (u : SharedUnit) (hu : s.Closed u) :
    s'.Closed u := by
  obtain ⟨⟨t, ht⟩, ⟨c, hc⟩⟩ := hu
  exact ⟨⟨t, h.trees u.tree t ht⟩, ⟨c, h.catalogs u.catalog c hc⟩⟩

theorem read_of_closed (s : SharedRegistry) (u : SharedUnit) (t : Tree) (c : Catalog)
    (ht : s.grove.node? u.tree = some t.close) (hc : s.catalogs[u.catalog]? = some c.close) :
    s.read u = Component.close ⟨u.name, t, c⟩ := by
  rw [read, Grove.node_of_node? s.grove u.tree _ ht, hc]
  rfl

/-- A closed unit reads the same ever after. -/
theorem Later.read {s s' : SharedRegistry} (h : Later s s') (u : SharedUnit) (hu : s.Closed u) :
    s'.read u = s.read u := by
  obtain ⟨⟨t, ht⟩, ⟨c, hc⟩⟩ := hu
  rw [read_of_closed s u t c ht hc,
    read_of_closed s' u t c (h.trees u.tree t ht) (h.catalogs u.catalog c hc)]

theorem close_read (s : SharedRegistry) (u : SharedUnit) (hu : s.Closed u) :
    (s.read u).close = s.read u := by
  obtain ⟨⟨t, ht⟩, ⟨c, hc⟩⟩ := hu
  rw [read_of_closed s u t c ht hc, Component.close_close]

theorem isSealed_read (s : SharedRegistry) (u : SharedUnit) (hu : s.Closed u) :
    (s.read u).isSealed = true := by
  rw [← close_read s u hu]
  exact Component.isSealed_close _

theorem later_freeze (s : SharedRegistry) : Later s s.freeze :=
  ⟨List.prefix_refl _, fun _ => ⟨rfl, rfl⟩, fun _ _ h => h, fun _ _ h => h,
    fun _ _ h => ⟨h.tree, h.catalog⟩⟩

section
variable (s : SharedRegistry) (u : SharedUnit)

theorem later_accept (hopen : s.frozen = false) : Later s (s.accept u) := by
  refine ⟨List.prefix_append _ _, fun hfrozen => ?_, fun h t ht => ?_, fun n c hc => ?_,
    fun h n hold => ⟨?_, ?_⟩⟩
  · rw [hopen] at hfrozen
    cases hfrozen
  · -- also when the closed tree lies within the one that is closed now, or around it
    exact Grove.node?_close s.grove u.tree h t ht
  · simp only [accept, List.getElem?_modify, hc]
    by_cases hn : u.catalog = n <;> simp [hn, Catalog.close]
  · apply Grove.node?_setNode_isSome s.grove u.tree h _ _ hold.tree
    intro x hx
    rw [Grove.node_of_node? s.grove u.tree x hx]
    refine ⟨Tree.withSeal_name true x, fun q hq => ?_⟩
    rw [Tree.close, Tree.at?_withSeal, Option.isSome_map]
    exact hq
  · rw [accept, List.length_modify]
    exact hold.catalog

theorem catalog_accept (c : Catalog) (hc : s.catalogs[u.catalog]? = some c) :
    (s.accept u).catalogs[u.catalog]? = some c.close := by
  simp [accept, hc]

theorem closed_accept (h : s.Holds u.tree u.catalog) : (s.accept u).Closed u := by
  obtain ⟨t, ht⟩ := Option.isSome_iff_exists.mp h.tree
  have hc : s.catalogs[u.catalog]? = some (s.catalogs.get ⟨u.catalog, h.catalog⟩) :=
    List.getElem?_eq_getElem h.catalog
  exact ⟨⟨t, Grove.node?_close_self s.grove u.tree t ht⟩, ⟨_, catalog_accept s u _ hc⟩⟩

theorem sound_accept (hs : s.Sound) (hopen : s.frozen = false) (hnew : u.name ∉ s.names)
    (h : s.Holds u.tree u.catalog) : (s.accept u).Sound := by
  refine ⟨?_, fun v hv => ?_⟩
  · rw [names, accept, List.map_append, List.map_singleton, ← List.concat_eq_append]
    exact hs.distinct.concat hnew
  · rcases List.mem_append.mp hv with hv | hv
    · exact (later_accept s u hopen).closed v (hs.units v hv)
    · rw [List.mem_singleton.mp hv]
      exact closed_accept s u h

theorem read_accept (h : s.Holds u.tree u.catalog) : (s.accept u).read u = (s.read u).close := by
  obtain ⟨t, ht⟩ := Option.isSome_iff_exists.mp h.tree
  obtain ⟨c, hc⟩ : ∃ c, s.catalogs[u.catalog]? = some c :=
    ⟨_, List.getElem?_eq_getElem h.catalog⟩
  rw [read_of_closed (s.accept u) u t c (Grove.node?_close_self s.grove u.tree t ht)
    (catalog_accept s u c hc), read, Grove.node_of_node? s.grove u.tree t ht, hc]
  rfl

theorem view_accept (hs : s.Sound) (hopen : s.frozen = false) (h : s.Holds u.tree u.catalog) :
    (s.accept u).view = { s.view with units := s.view.units ++ [(s.read u).close] } := by
  have hlater := later_accept s u hopen
  have hold : s.entries.map (s.accept u).read = s.entries.map s.read :=
    List.map_congr_left fun v hv => hlater.read v (hs.units v hv)
  have hentries : (s.accept u).entries = s.entries ++ [u] := rfl
  rw [view, hentries, List.map_append, hold, List.map_singleton, read_accept s u h]
  rfl

/-- As a value, the registry takes in what the unit is at that moment. -/
theorem add_view (hs : s.Sound) (hname : Name.isSegment u.name = true) (hopen : s.frozen = false)
    (hnew : u.name ∉ s.names) (h : s.Holds u.tree u.catalog) :
    s.view.add (s.read u) = .ok (s.accept u).view := by
  rw [← names_view] at hnew
  exact (Registry.add_eq_ok_iff _ _ _).mpr ⟨hname, hopen, hnew, view_accept s u hs hopen h⟩

end

end SharedRegistry

end DocNavigation
