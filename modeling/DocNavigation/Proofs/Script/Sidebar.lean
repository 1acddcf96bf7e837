import DocNavigation.Proofs.Script.SourceIndex
import DocNavigation.Script.Basic

/-!
Reading the script of one catalog undoes writing it, as long as no category goes by one of the short
keys itself; and so scripts of both kinds decode to what they encode.
-/

namespace DocNavigation.Sidebar

/-- A category that is itself one of the short keys. -/
def IsShort (category : String) : Prop :=
  category ∈ shortKeys.map (·.2)

instance (category : String) : Decidable (IsShort category) :=
  inferInstanceAs (Decidable (category ∈ shortKeys.map (·.2)))

theorem categoryOf_keyOf (category : String) (h : ¬ IsShort category) :
    categoryOf (keyOf category) = category := by
  have hlong : ∀ p ∈ shortKeys, categoryOf (keyOf p.1) = p.1 := by decide
  cases hkey : Json.getKey? shortKeys category with
  | some key =>
    obtain ⟨p, hp, -⟩ := Option.map_eq_some_iff.mp hkey
    have hcategory := List.find?_some hp
    rw [← of_decide_eq_true hcategory]
    exact hlong p (List.mem_of_find?_eq_some hp)
  | none =>
    have hnone : shortKeys.find? (·.2 = category) = none := by
      rw [List.find?_eq_none]
      intro p hp hshort
      exact h (of_decide_eq_true hshort ▸ List.mem_map_of_mem hp)
    rw [keyOf, hkey, Option.getD_none, categoryOf, hnone]
    rfl

/-- The fields of a script before equal keys are put together. -/
def keyed (c : Catalog) : List (String × Json) :=
  c.toFields.map fun (category, rows) => (keyOf category, rows)

theorem toList_render (c : Catalog) : (render c).toList =
    "initSidebarItems(".toList ++ (Json.text (.obj (Json.putAll [] (keyed c))) ++ [')', ';']) := by
  have hclose : ");".toList = [')', ';'] := by decide
  have hsplit := Script.toList_wrapped "initSidebarItems("
    ((Json.obj (Json.putAll [] (keyed c))).write Json.compact) ");"
  rw [hclose] at hsplit
  exact hsplit

/-- The argument reaches from the first brace to the last, whatever stands between them. -/
theorem argument?_call (fields : List (String × Json)) :
    argument? ("initSidebarItems(".toList ++ (Json.text (.obj fields) ++ [')', ';'])) =
      some (Json.text (.obj fields)) := by
  have hleft : Text.trimLeft ("initSidebarItems(".toList ++ (Json.text (.obj fields) ++ [')', ';'])) =
      "initSidebarItems(".toList ++ (Json.text (.obj fields) ++ [')', ';']) := by
    have hhead : "initSidebarItems(".toList = 'i' :: "nitSidebarItems(".toList := by decide
    rw [hhead, List.cons_append]
    exact Text.trimLeft_of_head 'i' _ (by decide)
  have hright : Text.trimRight (Json.text (.obj fields) ++ [')', ';']) =
      Json.text (.obj fields) ++ [')', ';'] := by
    rw [Text.trimRight, List.reverse_append]
    change (List.dropWhile Text.isBlank (';' :: _)).reverse = _
    rw [List.dropWhile_cons_of_neg (by decide)]
    simp
  have hsplit : Json.text (.obj fields) ++ [')', ';'] =
      (Json.text (.obj fields) ++ [')']) ++ [';'] := by simp
  rw [argument?, hleft, Script.dropPrefix?_append]
  simp only [Option.bind_eq_bind, Option.bind_some, hright]
  rw [hsplit]
  simp only [List.getLast?_concat, List.dropLast_concat, if_true]
  rw [if_pos (Script.braces_of_obj fields)]

section
variable (c : Catalog) (hc : c.WellFormed)
include hc

theorem written_restorable : (Json.obj (Json.putAll [] (keyed c))).Everywhere Json.Restorable := by
  have hrows : ∀ f ∈ c.toFields, f.2.Everywhere Json.Restorable :=
    (Json.everywhereFields_iff _ _).mp (Catalog.toJson_restorable c hc).2
  refine ⟨Json.putAll_nodup [] _ List.nodup_nil, (Json.everywhereFields_iff _ _).mpr ?_⟩
  intro f hf
  rcases Json.mem_putAll [] _ f hf with hf | hf
  · exact absurd hf List.not_mem_nil
  · obtain ⟨g, hg, rfl⟩ := List.mem_map.mp hf
    exact hrows g hg

theorem noReturn_render : '\r' ∉ (render c).toList := by
  have hprintable : Json.Printable (render c).toList := by
    rw [toList_render, Json.printable_append, Json.printable_append]
    exact ⟨by decide, Json.printable_text _ (written_restorable c hc), by decide⟩
  intro hreturn
  exact absurd (hprintable _ hreturn) (by decide)

end

section
variable (c : Catalog) (hlong : ∀ category ∈ c.categories, ¬ IsShort category)
include hlong

theorem categoryOf_keyed :
    (keyed c).map (fun f => (categoryOf f.1, f.2)) = c.toFields := by
  rw [keyed, List.map_map]
  conv_rhs => rw [← List.map_id c.toFields]
  apply List.map_congr_left
  intro f hf
  have hcategory : f.1 ∈ c.categories := by
    obtain ⟨g, hg, rfl⟩ := List.mem_map.mp hf
    exact List.mem_map_of_mem hg
  exact Prod.ext (categoryOf_keyOf f.1 (hlong f.1 hcategory)) rfl

variable (hc : c.WellFormed)
include hc

/-- Keys differ as the categories do. -/
theorem keyed_nodup : ((keyed c).map (·.1)).Nodup := by
  apply List.Nodup.of_map categoryOf
  have hback := congrArg (List.map (·.1)) (categoryOf_keyed c hlong)
  rw [List.map_map] at hback
  rw [List.map_map]
  exact hback ▸ Catalog.toJson_distinctKeys c hc

theorem parse_render (source : Option String) : parse (render c) source = .ok c.copy := by
  have hwritten : Json.putAll [] (keyed c) = keyed c :=
    Json.putAll_of_nodup [] (keyed c) (keyed_nodup c hlong hc)
  have hrestored : Json.putAll [] ((keyed c).map fun f => (categoryOf f.1, f.2)) = c.toFields := by
    rw [categoryOf_keyed c hlong]
    exact Json.putAll_of_nodup [] c.toFields (Catalog.toJson_distinctKeys c hc)
  have hcatalog : Catalog.ofFields c.toFields = .ok c.copy := Catalog.ofJson_toJson c hc
  have hread := Script.readText_text _ (written_restorable c hc)
  rw [parse, parseItems, toList_render, argument?_call]
  simp only [hread]
  rw [hwritten, hrestored, hcatalog]
  rfl

end

end Sidebar

/-- Both scripts give back what was written: the units in their order with equal trees, and the
entries of a catalog in the order of categories and entries. -/
theorem scripts_roundTrip :
    (∀ (r : Registry) (source : Option String), r.Reachable →
      ∃ trees, Script.parse (Script.render r) source = .ok trees ∧
        trees.map (·.1) = r.names ∧
        List.Forall₂ (fun t u => Tree.same t.2 u.tree = true) trees r.units) ∧
    ∀ (c : Catalog) (source : Option String), c.Built →
      (∀ category ∈ c.categories, ¬ Sidebar.IsShort category) →
      ∃ d, Sidebar.parse (Sidebar.render c) source = .ok d ∧ d.same c = true := by
  refine ⟨?_, ?_⟩
  · intro r source hr
    obtain ⟨hnames, hbuilt⟩ := Registry.Reachable.sound r hr
    have hwell : ∀ u ∈ r.units, u.WellFormed :=
      fun u hu => Component.Built.wellFormed u (hbuilt u hu)
    refine ⟨_, Script.parse_render r source hnames hwell, ?_, ?_⟩
    · rw [List.map_map]
      rfl
    · rw [List.forall₂_map_left_iff, List.forall₂_same]
      intro u _
      simp [Tree.same, Tree.copy, Tree.withSeal_withSeal]
  · intro c source hc hlong
    exact ⟨c.copy, Sidebar.parse_render c hlong (Catalog.Built.wellFormed c hc) source,
      by simp [Catalog.same, Catalog.copy]⟩

namespace Script

/-- Units whose names and trees hold the marks that a script puts around them. -/
def marked : Registry where
  units := [⟨"\"] = \x7b", .node "\x7d);" true [] ["\n\""], ⟨[], true⟩⟩,
    ⟨"\u2028\n", .node "var sourcesIndex = \x7b\x7d;" true [] ["] = \x7b"], ⟨[], true⟩⟩]

theorem marked_reachable : marked.Reachable := by
  have hfirst : Tree.Built (.node "\x7d);" false [] ["\n\""]) :=
    .edit (Tree.empty "\x7d);") _ _ [] (.empty _) rfl
      (.insertFile _ _ (.arr [.str "\n\""]) _ rfl rfl)
  have hsecond : Tree.Built (.node "var sourcesIndex = \x7b\x7d;" false [] ["] = \x7b"]) :=
    .edit (Tree.empty "var sourcesIndex = \x7b\x7d;") _ _ [] (.empty _) rfl
      (.insertFile _ _ (.arr [.str "] = \x7b"]) _ rfl rfl)
  exact .register _ _ (.str "\u2028\n") _ _ _
    (.register {} _ (.str "\"] = \x7b") _ _ _ .empty hfirst .empty rfl) hsecond .empty rfl

/-- Entries like them. -/
def markedCatalog : Catalog :=
  ⟨[("function", [⟨"\"\x7d);", "\n] = \x7b"⟩]), ("\x7d);", [⟨"\u2028", "\\"⟩, ⟨"'", "\r"⟩])], false⟩

theorem markedCatalog_built : markedCatalog.Built := by
  have hfirst : Catalog.Built ⟨[("function", [⟨"\"\x7d);", "\n] = \x7b"⟩])], false⟩ :=
    .addValues {} _ (.str "function") (.str "\"\x7d);") (.str "\n] = \x7b") _ .empty rfl
  have hsecond := Catalog.Built.addValues _ _ (.str "\x7d);") (.str "\u2028") (.str "\\") _ hfirst rfl
  exact .addValues _ _ (.str "\x7d);") (.str "'") (.str "\r") _ hsecond rfl

end Script

theorem scripts_roundTrip_marked :
    Script.marked.Reachable ∧ Script.markedCatalog.Built ∧
    (∀ category ∈ Script.markedCatalog.categories, ¬ Sidebar.IsShort category) ∧
    (∃ trees, Script.parse (Script.render Script.marked) none = .ok trees ∧
      trees.map (·.1) = Script.marked.names ∧
      List.Forall₂ (fun t u => Tree.same t.2 u.tree = true) trees Script.marked.units) ∧
    ∃ d, Sidebar.parse (Sidebar.render Script.markedCatalog) none = .ok d ∧
      d.same Script.markedCatalog = true := by
  have hlong : ∀ category ∈ Script.markedCatalog.categories, ¬ Sidebar.IsShort category := by decide
  exact ⟨Script.marked_reachable, Script.markedCatalog_built, hlong,
    scripts_roundTrip.1 _ none Script.marked_reachable,
    scripts_roundTrip.2 _ none Script.markedCatalog_built hlong⟩

end DocNavigation
