import DocNavigation.Proofs.Catalog.Json
import DocNavigation.Proofs.Json.Renamed
import DocNavigation.Proofs.Script.Sidebar
import Mathlib.Algebra.Ring.Nat

/-!
The rows of a script and the entries of a catalog. A short key and its long category can both be in
use; of two fields that come under one name when a script is written or read only the later is kept,
and apart from that no row is lost in either direction.
-/

namespace DocNavigation

theorem Number.total_eq_sum (ns : List Nat) : Number.total ns = ns.sum := by
  induction ns with
  | nil => rfl
  | cons n ns ih => rw [total, List.sum_cons, ih]

namespace Sidebar

/-- The script is one call whose argument reads as an object with these fields. -/
def Holds (script : String) (fields : List (String × Json)) : Prop :=
  ∃ body, argument? script.toList = some body ∧ Script.readText body = .ok (.obj fields)

def rowsIn : Json → List Json
  | .arr rows => rows
  | _ => []

def rowCount (fields : List (String × Json)) : Nat :=
  (fields.map fun f => (rowsIn f.2).length).sum

theorem rowCount_append (fields more : List (String × Json)) :
    rowCount (fields ++ more) = rowCount fields + rowCount more := by
  simp [rowCount]

theorem rowCount_perm (fields fields' : List (String × Json)) (h : fields.Perm fields') :
    rowCount fields = rowCount fields' :=
  (h.map _).sum_nat

theorem rowCount_eq_zero_iff (fields : List (String × Json)) :
    rowCount fields = 0 ↔ ∀ f ∈ fields, rowsIn f.2 = [] := by
  rw [rowCount, List.sum_eq_zero_iff_forall_eq_nat, List.forall_mem_map]
  simp only [List.length_eq_zero_iff]

/-- What lasts and what is overwritten make up all the rows. -/
theorem rowCount_lasting (key : String × Json → String) (fields : List (String × Json)) :
    rowCount (Json.lasting key fields) + rowCount (Json.overwritten key fields) =
      rowCount fields := by
  rw [← rowCount_append]
  exact rowCount_perm _ _ (Json.lasting_append_overwritten key fields)

section
variable (a b : String)

theorem keyOf_cases : (a, keyOf a) ∈ shortKeys ∨ keyOf a = a := by
  cases hkey : Json.getKey? shortKeys a with
  | none => exact .inr (by rw [keyOf, hkey, Option.getD_none])
  | some key =>
    refine .inl ?_
    rw [keyOf, hkey, Option.getD_some]
    exact (Json.getKey?_eq_some_iff shortKeys (by decide) a key).mp hkey

theorem keyOf_eq_keyOf_iff :
    keyOf a = keyOf b ↔ a = b ∨ (a, b) ∈ shortKeys ∨ (b, a) ∈ shortKeys := by
  have hlong : ∀ p ∈ shortKeys, ∀ q ∈ shortKeys, p.2 = q.2 → p.1 = q.1 := by decide
  have hshort : ∀ p ∈ shortKeys, keyOf p.1 = keyOf p.2 := by decide
  constructor
  · intro h
    rcases keyOf_cases a with ha | ha <;> rcases keyOf_cases b with hb | hb
    · exact .inl (hlong _ ha _ hb h)
    · exact .inr (.inl (hb ▸ h ▸ ha))
    · exact .inr (.inr (ha ▸ h ▸ hb))
    · exact .inl (by rw [← ha, h, hb])
  · rintro (rfl | h | h)
    · rfl
    · exact hshort _ h
    · exact (hshort _ h).symm

end

/-- A category and the short key that stands for it are both in use. -/
def Clashes (c : Catalog) : Prop :=
  ∃ p ∈ shortKeys, p.1 ∈ c.categories ∧ p.2 ∈ c.categories

instance (c : Catalog) : Decidable (Clashes c) :=
  inferInstanceAs (Decidable (∃ p ∈ shortKeys, p.1 ∈ c.categories ∧ p.2 ∈ c.categories))

theorem keys_nodup_iff (c : Catalog) (hc : c.categories.Nodup) :
    ((keyed c).map (·.1)).Nodup ↔ ¬ Clashes c := by
  have hkeys : (keyed c).map (·.1) = c.categories.map keyOf := by
    rw [keyed, Catalog.toFields, Catalog.categories, List.map_map, List.map_map, List.map_map]
    rfl
  rw [hkeys, List.nodup_map_iff_inj_on hc]
  constructor
  · rintro hinj ⟨p, hp, hlong, hshort⟩
    have hne : ∀ p ∈ shortKeys, p.1 ≠ p.2 := by decide
    exact hne p hp (hinj _ hlong _ hshort ((keyOf_eq_keyOf_iff _ _).mpr (.inr (.inl hp))))
  · intro hclash a ha b hb h
    rcases (keyOf_eq_keyOf_iff a b).mp h with h | h | h
    · exact h
    · exact absurd ⟨_, h, ha, hb⟩ hclash
    · exact absurd ⟨_, h, hb, ha⟩ hclash

/-- Every entry has its row under the key of its category, and there are no other rows. -/
structure Complete (c : Catalog) (fields : List (String × Json)) : Prop where
  rows : ∀ e ∈ c.entries, ∃ rows, (keyOf e.category, .arr rows) ∈ fields ∧
    Json.strings [e.name, e.summary] ∈ rows
  count : rowCount fields = c.size

section
variable (c : Catalog)

theorem rowCount_keyed : rowCount (keyed c) = c.size := by
  rw [Catalog.size, Number.total_eq_sum, rowCount, keyed, Catalog.toFields, List.map_map,
    List.map_map]
  congr 1
  refine List.map_congr_left fun g _ => ?_
  exact List.length_map Catalog.itemRow

theorem complete_keyed : Complete c (keyed c) := by
  refine ⟨?_, rowCount_keyed c⟩
  intro e he
  obtain ⟨g, hg, he⟩ := List.mem_flatMap.mp he
  obtain ⟨i, hi, rfl⟩ := List.mem_map.mp he
  exact ⟨g.2.map Catalog.itemRow, List.mem_map_of_mem (List.mem_map_of_mem hg),
    List.mem_map_of_mem hi⟩

variable (hc : c.WellFormed)
include hc

theorem rows_keyed (f : String × Json) (hf : f ∈ keyed c) : rowsIn f.2 ≠ [] := by
  obtain ⟨_, hfield, rfl⟩ := List.mem_map.mp hf
  obtain ⟨g, hg, rfl⟩ := List.mem_map.mp hfield
  simpa [rowsIn] using (hc.groups g hg).items

theorem holds_render : Holds (render c) (Json.putAll [] (keyed c)) := by
  refine ⟨_, ?_, Script.readText_text _ (written_restorable c hc)⟩
  rw [toList_render, argument?_call]

theorem complete_iff : Complete c (Json.putAll [] (keyed c)) ↔ ¬ Clashes c := by
  rw [← keys_nodup_iff c hc.distinct]
  constructor
  · intro hcomplete
    have hcount := rowCount_lasting (·.1) (keyed c)
    rw [← rowCount_perm _ _ (Json.putAll_nil_perm (keyed c)), hcomplete.count,
      rowCount_keyed c] at hcount
    have hnone : ∀ f ∈ Json.overwritten (·.1) (keyed c), rowsIn f.2 = [] :=
      (rowCount_eq_zero_iff _).mp (Nat.add_eq_left.mp hcount)
    rw [← Json.overwritten_eq_nil_iff, List.eq_nil_iff_forall_not_mem]
    intro f hf
    have hmem := (Json.lasting_append_overwritten (·.1) (keyed c)).mem_iff.mp
      (List.mem_append_right _ hf)
    exact rows_keyed c hc f hmem (hnone f hf)
  · intro hkeys
    rw [Json.putAll_of_nodup [] (keyed c) hkeys]
    exact complete_keyed c

end

/-- The script of a catalog has the rows of the last category of each key. They are the rows of all
entries unless a category and its short key are both in use. -/
theorem render_complete_iff (c : Catalog) (hc : c.Built) :
    ∃ fields, Holds (render c) fields ∧ fields.Perm (Json.lasting (·.1) (keyed c)) ∧
      (Complete c fields ↔ ¬ Clashes c) :=
  have hwell := Catalog.Built.wellFormed c hc
  ⟨_, holds_render c hwell, Json.putAll_nil_perm (keyed c), complete_iff c hwell⟩

/-- A module and an item of the category that modules go by in scripts. -/
def crowded : Catalog :=
  ⟨[("module", [⟨"a", "x"⟩]), ("mod", [⟨"b", ""⟩])], true⟩

theorem crowded_built : crowded.Built := by
  have hfirst : Catalog.Built ⟨[("module", [⟨"a", "x"⟩])], false⟩ :=
    .addValues {} _ (.str "module") (.str "a") (.str "x") _ .empty rfl
  exact .close _ (.addValues _ _ (.str "mod") (.str "b") (.str "") _ hfirst rfl)

theorem render_complete_iff_crowded : crowded.Built ∧
    ∃ fields, Holds (render crowded) fields ∧ fields.Perm (Json.lasting (·.1) (keyed crowded)) ∧
      (Complete crowded fields ↔ ¬ Clashes crowded) :=
  ⟨crowded_built, render_complete_iff crowded crowded_built⟩

theorem holds_unique (script : String) (fields fields' : List (String × Json))
    (h : Holds script fields) (h' : Holds script fields') : fields = fields' := by
  obtain ⟨body, hbody, hread⟩ := h
  obtain ⟨body', hbody', hread'⟩ := h'
  cases hbody.symm.trans hbody'
  cases hread.symm.trans hread'
  rfl

/-- The module's row is not written. -/
theorem row_not_written : crowded.Built ∧ crowded.size = 2 ∧
    render crowded = "initSidebarItems(\x7b\"mod\":[[\"b\",\"\"]]\x7d);" ∧
    ¬ ∃ fields, Holds (render crowded) fields ∧ Complete crowded fields := by
  have hwell := Catalog.Built.wellFormed crowded crowded_built
  refine ⟨crowded_built, rfl, by decide +kernel, ?_⟩
  rintro ⟨fields, hholds, hcomplete⟩
  rw [holds_unique _ _ _ hholds (holds_render crowded hwell)] at hcomplete
  exact (complete_iff crowded hwell).mp hcomplete (by decide)

/-- The fields of a script under the categories that their keys stand for. -/
def named (fields : List (String × Json)) : List (String × Json) :=
  fields.map fun (key, rows) => (categoryOf key, rows)

/-- The fields whose category does not come again. -/
def surviving (fields : List (String × Json)) : List (String × Json) :=
  Json.lasting (fun f => categoryOf f.1) fields

/-- The fields whose category comes again. -/
def replaced (fields : List (String × Json)) : List (String × Json) :=
  Json.overwritten (fun f => categoryOf f.1) fields

/-- Every row of every field is an entry of its category, in order, and there are no other
entries. -/
structure Faithful (fields : List (String × Json)) (c : Catalog) : Prop where
  rows : ∀ f ∈ fields, ∃ rows is, f.2 = .arr rows ∧ List.Forall₂ Catalog.SpellsItem rows is ∧
    is.Sublist (c.items (categoryOf f.1))
  count : c.size = rowCount fields

theorem parse_eq_ok_iff (text : String) (source : Option String) (c : Catalog) :
    parse text source = .ok c ↔ ∃ fields, Holds text fields ∧
      Catalog.Spells (.obj (Json.putAll [] (named fields))) c := by
  have hkeys : ∀ fields, (Json.obj (Json.putAll [] (named fields))).DistinctKeys :=
    fun fields => Json.putAll_nodup [] _ List.nodup_nil
  rw [parse, Result.mapError_eq_ok_iff, parseItems]
  constructor
  · intro h
    split at h
    case h_1 => cases h
    case h_2 body hbody =>
      split at h
      case h_1 => cases h
      case h_2 fields hread =>
        exact ⟨fields, ⟨body, hbody, hread⟩, (Catalog.ofJson_eq_ok_iff _ c (hkeys fields)).mp h⟩
      case h_3 => cases h
  · rintro ⟨fields, ⟨body, hbody, hread⟩, h⟩
    simp only [hbody, hread]
    exact (Catalog.ofJson_eq_ok_iff _ c (hkeys fields)).mpr h

theorem heard_perm (fields : List (String × Json)) :
    (Json.putAll [] (named fields)).Perm (named (surviving fields)) := by
  have hperm := Json.putAll_nil_perm (named fields)
  rw [named, Json.lasting_map] at hperm
  exact hperm

section
variable (fields : List (String × Json)) (groups : List (String × List CatalogItem))
  (h : List.Forall₂ Catalog.SpellsGroup fields groups)
include h

theorem size_of_spells : Catalog.size ⟨Catalog.filled groups, false⟩ = rowCount fields := by
  rw [Catalog.size, Number.total_eq_sum]
  induction h with
  | nil => rfl
  | @cons f g fields groups hg _ ih =>
    obtain ⟨rows, hrows, hitems⟩ := hg.rows
    have hrest : rowCount (f :: fields) = g.2.length + rowCount fields := by
      simp [rowCount, rowsIn, hrows, hitems.length_eq]
    have hone : ((Catalog.filled [g]).map fun g => g.2.length).sum = g.2.length := by
      cases hitem : g.2 <;> simp [Catalog.filled, hitem]
    rw [Catalog.filled_cons g groups, List.map_append, List.sum_append, ih, hrest, hone]

variable (hkeys : (fields.map (·.1)).Nodup)
include hkeys

/-- The rows of a group are the items of its category. -/
theorem rows_of_spells (f : String × Json) (hf : f ∈ fields) : ∃ rows is, f.2 = .arr rows ∧
    List.Forall₂ Catalog.SpellsItem rows is ∧
    is.Sublist (Catalog.items ⟨Catalog.filled groups, false⟩ f.1) := by
  obtain ⟨g, hg, hspells⟩ := Result.exists_right_of_mem h f hf
  obtain ⟨rows, hrows, hitems⟩ := hspells.rows
  refine ⟨rows, g.2, hrows, hitems, ?_⟩
  by_cases hempty : g.2 = []
  · rw [hempty]
    exact List.nil_sublist _
  · have hwell := Catalog.spells_wellFormed (.obj fields) _ hkeys ⟨fields, groups, rfl, h, rfl⟩
    have hmem : g ∈ Catalog.filled groups := List.mem_filter.mpr ⟨hg, by simpa using hempty⟩
    rw [Catalog.items, ← hspells.category,
      (Json.getKey?_eq_some_iff _ hwell.distinct g.1 g.2).mpr hmem]
    exact .refl _

end

section
variable (fields : List (String × Json)) (c : Catalog)

theorem faithful_of_spells (h : Catalog.Spells (.obj (Json.putAll [] (named fields))) c) :
    Faithful (surviving fields) c := by
  obtain ⟨heard, groups, hheard, hspells, rfl⟩ := h
  cases hheard
  have hkeys : ((Json.putAll [] (named fields)).map (·.1)).Nodup :=
    Json.putAll_nodup [] _ List.nodup_nil
  refine ⟨?_, ?_⟩
  · intro f hf
    have hmem := (heard_perm fields).mem_iff.mpr (List.mem_map_of_mem hf)
    exact rows_of_spells _ groups hspells hkeys _ hmem
  · rw [size_of_spells _ groups hspells, rowCount_perm _ _ (heard_perm fields), rowCount, named,
      List.map_map]
    rfl

/-- A catalog that is faithful to the last field of each category is faithful to all fields just if
the other ones have no rows. -/
theorem Faithful.iff_replaced (h : Faithful (surviving fields) c) :
    Faithful fields c ↔ ∀ f ∈ replaced fields, f.2 = .arr [] := by
  have hcount := rowCount_lasting (fun f => categoryOf f.1) fields
  have hparts := fun f =>
    (Json.lasting_append_overwritten (fun f => categoryOf f.1) fields).mem_iff (a := f)
  constructor
  · intro hall f hf
    have hzero : rowCount (replaced fields) = 0 := by
      refine Nat.add_eq_left.mp (hcount.trans ?_)
      rw [← hall.count, h.count]
      rfl
    obtain ⟨rows, is, hrows, -⟩ := hall.rows f ((hparts f).mp (List.mem_append_right _ hf))
    have hnone := (rowCount_eq_zero_iff _).mp hzero f hf
    rw [hrows] at hnone ⊢
    exact congrArg _ hnone
  · intro hempty
    refine ⟨?_, ?_⟩
    · intro f hf
      rcases List.mem_append.mp ((hparts f).mpr hf) with hf | hf
      · exact h.rows f hf
      · exact ⟨[], [], hempty f hf, .nil, List.nil_sublist _⟩
    · have hzero : rowCount (replaced fields) = 0 := by
        refine (rowCount_eq_zero_iff _).mpr fun f hf => ?_
        rw [hempty f hf]
        rfl
      rw [h.count, ← hcount]
      exact (Nat.add_eq_left.mpr hzero).symm

/-- The fields that last spell a catalog if some well-formed one is faithful to them. -/
theorem spells_of_faithful (hc : c.WellFormed) (h : Faithful (surviving fields) c) :
    ∃ d, Catalog.Spells (.obj (Json.putAll [] (named fields))) d := by
  have hgroup : ∀ f ∈ Json.putAll [] (named fields), ∃ g, Catalog.SpellsGroup f g := by
    intro f hf
    obtain ⟨f, hlast, rfl⟩ := List.mem_map.mp ((heard_perm fields).mem_iff.mp hf)
    obtain ⟨rows, is, hrows, hitems, hsub⟩ := h.rows f hlast
    cases is with
    | nil => exact ⟨(categoryOf f.1, []), rfl, ⟨rows, hrows, hitems⟩, by simp, by simp, by simp⟩
    | cons i is =>
      have hmem : (categoryOf f.1, c.items (categoryOf f.1)) ∈ c.groups := by
        refine (Json.getKey?_eq_some_iff _ hc.distinct _ _).mp ?_
        cases hkey : Json.getKey? c.groups (categoryOf f.1) with
        | none =>
          rw [Catalog.items, hkey] at hsub
          cases hsub
        | some items => rw [Catalog.items, hkey, Option.getD_some]
      have horderly := hc.groups _ hmem
      exact ⟨(categoryOf f.1, i :: is), rfl, ⟨rows, hrows, hitems⟩, fun _ => horderly.category,
        fun j hj => horderly.itemNames j (hsub.subset hj), horderly.distinct.sublist (hsub.map _)⟩
  obtain ⟨groups, hspells⟩ := Result.exists_forall₂ hgroup
  exact ⟨_, _, groups, rfl, hspells, rfl⟩

end

/-- A script that is read gives a catalog with the rows of the last field of each category, and it is
read if there is such a catalog. The other fields are lost, which shows unless they have no rows. -/
theorem parse_faithful (text : String) (source : Option String) :
    (∀ c, parse text source = .ok c → ∃ fields, Holds text fields) ∧
    ∀ fields, Holds text fields →
      (∀ c, parse text source = .ok c → Faithful (surviving fields) c ∧
        (Faithful fields c ↔ ∀ f ∈ replaced fields, f.2 = .arr [])) ∧
      ((∃ c, parse text source = .ok c) ↔ ∃ c, c.WellFormed ∧ Faithful (surviving fields) c) := by
  refine ⟨fun c h => ?_, fun fields hholds => ?_⟩
  · obtain ⟨fields, hholds, -⟩ := (parse_eq_ok_iff text source c).mp h
    exact ⟨fields, hholds⟩
  have hspells : ∀ c, parse text source = .ok c →
      Catalog.Spells (.obj (Json.putAll [] (named fields))) c := by
    intro c h
    obtain ⟨fields', hholds', hspells⟩ := (parse_eq_ok_iff text source c).mp h
    rw [holds_unique text fields fields' hholds hholds']
    exact hspells
  refine ⟨fun c h => ?_, fun ⟨c, h⟩ => ?_, fun ⟨c, hc, hfaithful⟩ => ?_⟩
  · have hfaithful := faithful_of_spells fields c (hspells c h)
    exact ⟨hfaithful, Faithful.iff_replaced fields c hfaithful⟩
  · exact ⟨c, Catalog.Built.wellFormed c (Catalog.built_of_sidebar text source c h),
      faithful_of_spells fields c (hspells c h)⟩
  · obtain ⟨d, hd⟩ := spells_of_faithful fields c hc hfaithful
    exact ⟨d, (parse_eq_ok_iff text source d).mpr ⟨fields, hholds, hd⟩⟩

/-- Functions under both keys, with rows under the later one only. -/
def twice : String :=
  "initSidebarItems(\x7b\"fn\":[],\"mod\":[[\"a\",\"x\"]],\"function\":[[\"g\",\"\",0]]\x7d);"

def twiceFields : List (String × Json) :=
  [("fn", .arr []), ("mod", .arr [.strings ["a", "x"]]),
    ("function", .arr [.arr [.str "g", .str "", .int 0]])]

def twiceCatalog : Catalog :=
  ⟨[("function", [⟨"g", ""⟩]), ("module", [⟨"a", "x"⟩])], false⟩

theorem holds_twice : Holds twice twiceFields := by
  refine ⟨"\x7b\"fn\":[],\"mod\":[[\"a\",\"x\"]],\"function\":[[\"g\",\"\",0]]\x7d".toList, ?_, ?_⟩
  · decide +kernel
  · decide +kernel

theorem parse_faithful_twice : Holds twice twiceFields ∧ parse twice none = .ok twiceCatalog ∧
    Faithful (surviving twiceFields) twiceCatalog ∧ Faithful twiceFields twiceCatalog ∧
    ∃ c, c.WellFormed ∧ Faithful (surviving twiceFields) c := by
  have hparse : parse twice none = .ok twiceCatalog := by decide +kernel
  have hall := parse_faithful twice none
  obtain ⟨hlast, hiff⟩ := (hall.2 twiceFields holds_twice).1 twiceCatalog hparse
  exact ⟨holds_twice, hparse, hlast, hiff.mpr (by decide),
    (hall.2 twiceFields holds_twice).2.mp ⟨twiceCatalog, hparse⟩⟩

/-- Two rows are read and one entry comes of them. -/
theorem row_not_read : ∃ script fields c, Holds script fields ∧ rowCount fields = 2 ∧
    parse script none = .ok c ∧ c.entries = [⟨"module", "b", "y"⟩] ∧ ¬ Faithful fields c := by
  refine ⟨"initSidebarItems(\x7b\"mod\":[[\"a\",\"x\"]],\"module\":[[\"b\",\"y\"]]\x7d);",
    [("mod", .arr [.strings ["a", "x"]]), ("module", .arr [.strings ["b", "y"]])],
    ⟨[("module", [⟨"b", "y"⟩])], false⟩, ?_, rfl, by decide +kernel, rfl, ?_⟩
  · exact ⟨"\x7b\"mod\":[[\"a\",\"x\"]],\"module\":[[\"b\",\"y\"]]\x7d".toList,
      by decide +kernel, by decide +kernel⟩
  · intro h
    exact absurd h.count (by decide)

end Sidebar

end DocNavigation
