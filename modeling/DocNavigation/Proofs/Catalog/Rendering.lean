import DocNavigation.Component
import DocNavigation.Proofs.Script.Rows

/-!
Catalogs as lines of text: a heading for every category, which counts its entries, and below it a line
for each of them. A summary that is too long for the width ends in three dots. It keeps to a width that
has room for the dots; in a smaller one a long summary loses a few characters only.
-/

namespace DocNavigation.Catalog

/-- What is shown of a summary in a width. -/
structure Shows (width : Nat) (summary shown : String) : Prop where
  whole : summary.length ≤ width → shown = summary
  cut : width < summary.length → ∃ kept, kept <+: summary.toList ∧ shown.toList = kept ++ ['.', '.', '.']
  length : width < summary.length →
    shown.length = max (if 3 ≤ width then width else summary.length + width) 3
  fits : width < summary.length →
    (shown.length ≤ max width 3 ↔ 3 ≤ width ∨ summary.length + width ≤ 3)

section
variable (width : Nat) (summary : String)

theorem shortened_of_le (h : summary.length ≤ width) : shortened width summary = summary := by
  rw [shortened, String.length_toList, if_pos (Int.ofNat_le.mpr h)]

/-- How many characters stay before the dots. -/
def keptLength : Nat :=
  if 3 ≤ width then width - 3 else summary.length - (3 - width)

theorem shortened_of_lt (h : width < summary.length) :
    (shortened width summary).toList =
      summary.toList.take (keptLength width summary) ++ ['.', '.', '.'] := by
  have hlong : ¬ (summary.length : Int) ≤ width := by omega
  rw [shortened, String.length_toList, if_neg hlong, String.toList_ofList]
  by_cases hroom : 3 ≤ width
  · have hcount : ((width : Int) - 3).toNat = width - 3 := by omega
    have hroom' : 3 ≤ (width : Int) := by omega
    rw [keptLength, if_pos hroom, if_pos hroom', hcount]
  · have hcount : (3 - (width : Int)).toNat = 3 - width := by omega
    have hroom' : ¬ 3 ≤ (width : Int) := by omega
    rw [keptLength, if_neg hroom, if_neg hroom', hcount]

theorem length_shortened (h : width < summary.length) :
    (shortened width summary).length =
      max (if 3 ≤ width then width else summary.length + width) 3 := by
  rw [← String.length_toList, shortened_of_lt width summary h, List.length_append, List.length_take,
    String.length_toList]
  simp only [keptLength, List.length_cons, List.length_nil]
  split <;> omega

theorem shortened_shows : Shows width summary (shortened width summary) where
  whole := shortened_of_le width summary
  cut h := ⟨_, List.take_prefix _ _, shortened_of_lt width summary h⟩
  length := length_shortened width summary
  fits h := by
    rw [length_shortened width summary h]
    split <;> omega

end

section
variable (c : Catalog) (hc : c.WellFormed)
include hc

theorem items_of_mem (g : String × List CatalogItem) (hg : g ∈ c.groups) : c.items g.1 = g.2 := by
  rw [items, (Json.getKey?_eq_some_iff c.groups hc.distinct g.1 g.2).mpr hg]
  rfl

theorem entries_eq_flatMap : c.entries = c.categories.flatMap c.entriesOf := by
  rw [categories, List.flatMap_map]
  refine List.flatMap_congr fun g hg => ?_
  rw [entriesOf, items_of_mem c hc g hg]

theorem total_entriesOf :
    (c.categories.map fun category => (c.entriesOf category).length).sum = c.size := by
  rw [size, Number.total_eq_sum, categories, List.map_map]
  refine congrArg List.sum (List.map_congr_left fun g hg => ?_)
  rw [Function.comp_apply, entriesOf, items_of_mem c hc g hg, List.length_map]

theorem mem_categories_iff (category : String) :
    category ∈ c.categories ↔ c.entriesOf category ≠ [] := by
  rw [entriesOf, ne_eq, List.map_eq_nil_iff]
  constructor
  · intro h
    obtain ⟨g, hg, rfl⟩ := List.mem_map.mp h
    rw [items_of_mem c hc g hg]
    exact (hc.groups g hg).items
  · intro h
    rw [categories, ← Json.isSome_getKey?_iff]
    cases hkey : Json.getKey? c.groups category with
    | some is => rfl
    | none =>
      rw [items, hkey] at h
      exact absurd rfl h

theorem render_eq (width : Int) : c.render width = c.categories.flatMap fun category =>
    s!"[{category}] ({(c.entriesOf category).length})" ::
      (c.entriesOf category).map fun e => itemLine width ⟨e.name, e.summary⟩ := by
  rw [render, categories, List.flatMap_map]
  refine List.flatMap_congr fun g hg => ?_
  rw [entriesOf, items_of_mem c hc g hg, List.length_map, List.map_map]
  rfl

end

/-- There is a heading for every category that has entries, in the order of the categories, and a line
below it for every entry of the category, in their order; the headings count all entries. A summary
that fits is shown whole, and any other one by its beginning with three dots, within the width, or
within three characters if that is more, unless the width is below three and the summary is longer
than what is missing from three. -/
theorem render_lists (c : Catalog) (hc : c.Built) (width : Nat) :
    (∃ shown : String → String, (∀ summary, Shows width summary (shown summary)) ∧
      c.render width = c.categories.flatMap fun category =>
        s!"[{category}] ({(c.entriesOf category).length})" :: (c.entriesOf category).map fun e =>
          "  " ++ e.name ++ (if shown e.summary = "" then "" else " - " ++ shown e.summary)) ∧
    c.categories.Nodup ∧ (∀ category, category ∈ c.categories ↔ c.entriesOf category ≠ []) ∧
    c.entries = c.categories.flatMap c.entriesOf ∧
    (c.categories.map fun category => (c.entriesOf category).length).sum = c.size := by
  have hwell := hc.wellFormed
  exact ⟨⟨_, shortened_shows width, render_eq c hwell width⟩, hwell.distinct,
    mem_categories_iff c hwell, entries_eq_flatMap c hwell, total_entriesOf c hwell⟩

/-- Two categories, a summary that is too long for ten characters and one that is empty. -/
def display : Catalog :=
  ⟨[("trait", [⟨"Read", "reads a few bytes"⟩, ⟨"Write", ""⟩]), ("module", [⟨"io", "I/O"⟩])], false⟩

theorem display_built : display.Built := by
  have hdistinct : (display.toFields.map (·.1)).Nodup := by decide
  exact .ofJson display.toJson display hdistinct (by rfl)

theorem render_lists_display : display.Built ∧
    display.render 10 = ["[trait] (2)", "  Read - reads a...", "  Write", "[module] (1)", "  io - I/O"] ∧
    (display.categories.map fun category => (display.entriesOf category).length).sum = display.size ∧
    ∃ shown, Shows 10 "reads a few bytes" shown ∧ shown.length = 10 := by
  obtain ⟨⟨shown, hshown, -⟩, -, -, -, hsize⟩ := render_lists display display_built 10
  have hten := (hshown "reads a few bytes").length (by decide)
  exact ⟨display_built, by decide +kernel, hsize, _, hshown _, hten⟩

/-- In a width below three only the last characters of a summary go, and the dots make it longer than
it was. -/
theorem cut_beyond_width :
    let c : Catalog := ⟨[("module", [⟨"io", "abcdef"⟩])], false⟩
    c.Built ∧ c.render 0 = ["[module] (1)", "  io - abc..."] ∧
      c.render 2 = ["[module] (1)", "  io - abcde..."] ∧
      max 0 3 < "abc...".length ∧ max 2 3 < "abcde...".length := by
  intro c
  have hdistinct : (c.toFields.map (·.1)).Nodup := by decide
  exact ⟨.ofJson c.toJson c hdistinct (by rfl), by decide +kernel, by decide +kernel, by decide,
    by decide⟩

end DocNavigation.Catalog
