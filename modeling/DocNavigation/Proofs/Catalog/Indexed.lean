import DocNavigation.Proofs.Catalog.Json
import DocNavigation.Proofs.Effect

/-!
Catalogs that keep their entries twice over, in the order of their addition and by name. What is
done to one of them does the same to both places, and to a catalog that keeps its entries once.
Hence the two places agree through any calls, those that fail included.
-/

namespace DocNavigation

structure IndexedCatalog where
  entries : List (String × List CatalogEntry) := []
  names : List (String × List (String × CatalogEntry)) := []
  isSealed : Bool := false
deriving DecidableEq, Repr

/-- What is done to such a catalog; what was done before a failure stays. -/
abbrev IndexedAct (ε : Type) := ExceptT ε (StateM IndexedCatalog)

namespace IndexedCatalog

def entriesOf (c : IndexedCatalog) (category : String) : List CatalogEntry :=
  (Json.getKey? c.entries category).getD []

def named (c : IndexedCatalog) (category : String) : List (String × CatalogEntry) :=
  (Json.getKey? c.names category).getD []

def categories (c : IndexedCatalog) : List String :=
  (c.entries.filter fun g => !g.2.isEmpty).map (·.1)

def all (c : IndexedCatalog) : List CatalogEntry :=
  c.entries.flatMap (·.2)

def size (c : IndexedCatalog) : Nat :=
  Number.total (c.entries.map fun g => g.2.length)

def get (c : IndexedCatalog) (category name : String) : Except CatalogError CatalogEntry :=
  match Json.getKey? (c.named category) name with
  | some e => .ok e
  | none => .error (.notFound category name)

def contains (c : IndexedCatalog) (category name : String) : Bool :=
  (Json.getKey? (c.named category) name).isSome

def toFields (c : IndexedCatalog) : List (String × Json) :=
  c.categories.map fun k => (k, .arr ((c.entriesOf k).map fun e => .strings [e.name, e.summary]))

def toJson (c : IndexedCatalog) : Json :=
  .obj c.toFields

/-- The same rows under the same keys, whatever the order of the keys, and the same categories in
order. -/
def Same (c d : IndexedCatalog) : Prop :=
  c.toFields.Perm d.toFields ∧ c.categories = d.categories

def close (c : IndexedCatalog) : IndexedCatalog :=
  { c with isSealed := true }

/-- The entry that an addition comes to, if nothing forbids it. -/
def check (c : IndexedCatalog) (category name summary : Json) : Except CatalogError CatalogEntry :=
  if c.isSealed then .error .isSealed
  else match category with
    | .str "" => .error (.category category)
    | .str k =>
      match name with
      | .str "" => .error (.name name)
      | .str n =>
        match summary with
        | .str s => if c.contains k n then .error (.duplicate k n) else .ok ⟨k, n, s⟩
        | _ => .error (.summary n)
      | _ => .error (.name name)
    | _ => .error (.category category)

def store (e : CatalogEntry) (c : IndexedCatalog) : IndexedCatalog :=
  { c with entries := Json.put c.entries e.category (c.entriesOf e.category ++ [e]) }

def index (e : CatalogEntry) (c : IndexedCatalog) : IndexedCatalog :=
  { c with names := Json.put c.names e.category (Json.put (c.named e.category) e.name e) }

def add (category name summary : Json) : IndexedAct CatalogError CatalogEntry := do
  match (← MonadState.get).check category name summary with
  | .error e => throw e
  | .ok e =>
    modify (store e)
    modify (index e)
    return e

/-- Goes through a list and gathers what each step adds. -/
def each {ε α : Type} (f : α → IndexedAct ε (List CatalogEntry)) :
    List α → IndexedAct ε (List CatalogEntry)
  | [] => return []
  | a :: as => return (← f a) ++ (← each f as)

def addEntry (e : CatalogEntry) : IndexedAct CatalogError (List CatalogEntry) :=
  return [← add (.str e.category) (.str e.name) (.str e.summary)]

/-- An open copy: the entries are added to a new catalog. -/
def copy (c : IndexedCatalog) : Except CatalogError (List CatalogEntry) × IndexedCatalog :=
  (each addEntry c.all).run {}

def addRow (category : String) (row : Json) : IndexedAct Defect (List CatalogEntry) :=
  match row with
  | .arr (.str name :: .str summary :: _) => (addEntry ⟨category, name, summary⟩).adapt .entry
  | _ => throw (.row category row)

def addRows (category : String) (rows : Json) : IndexedAct Defect (List CatalogEntry) :=
  match rows with
  | .arr rows => each (addRow category) rows
  | _ => throw (.rowsNotList category)

def ofJson (v : Json) : Except Defect (List CatalogEntry) × IndexedCatalog :=
  match v with
  | .obj fields => (each (fun f => addRows f.1 f.2) fields).run {}
  | v => (.error (.catalogNotObject v.kind), {})

end IndexedCatalog

namespace Catalog

def entriesIn (category : String) (items : List CatalogItem) : List CatalogEntry :=
  items.map fun i => ⟨category, i.name, i.summary⟩

def keyed (category : String) (items : List CatalogItem) : List (String × CatalogEntry) :=
  (entriesIn category items).map fun e => (e.name, e)

/-- The catalog with the entries of each group kept twice. -/
def indexed (c : Catalog) : IndexedCatalog where
  entries := c.groups.map fun g => (g.1, entriesIn g.1 g.2)
  names := c.groups.map fun g => (g.1, keyed g.1 g.2)
  isSealed := c.isSealed

section
variable (c : Catalog) (category name : String)

theorem indexed_isSealed : c.indexed.isSealed = c.isSealed := rfl

theorem indexed_entriesOf : c.indexed.entriesOf category = c.entriesOf category := by
  rw [IndexedCatalog.entriesOf, indexed, Json.getKey?_map entriesIn, entriesOf, items]
  cases Json.getKey? c.groups category <;> rfl

theorem indexed_named : c.indexed.named category = keyed category (c.items category) := by
  rw [IndexedCatalog.named, indexed, Json.getKey?_map keyed, items]
  cases Json.getKey? c.groups category <;> rfl

theorem getKey?_keyed (items : List CatalogItem) :
    Json.getKey? (keyed category items) name =
      (items.find? (·.name = name)).map fun i => ⟨category, i.name, i.summary⟩ := by
  induction items with
  | nil => rfl
  | cons i items ih =>
    have hfirst : keyed category (i :: items) =
      (i.name, ⟨category, i.name, i.summary⟩) :: keyed category items := rfl
    rw [hfirst, Json.getKey?_cons, List.find?_cons, ih]
    by_cases hi : i.name = name <;> simp [hi]

theorem indexed_get : c.indexed.get category name = c.get category name := by
  rw [IndexedCatalog.get, get, indexed_named, getKey?_keyed, item?]
  cases (c.items category).find? (·.name = name) <;> rfl

theorem indexed_contains : c.indexed.contains category name = c.contains category name := by
  rw [IndexedCatalog.contains, contains, indexed_named, getKey?_keyed, item?, Option.isSome_map]

theorem indexed_all : c.indexed.all = c.entries := by
  rw [IndexedCatalog.all, indexed, List.flatMap_map]
  rfl

theorem indexed_size : c.indexed.size = c.size := by
  simp [IndexedCatalog.size, indexed, size, entriesIn, List.map_map, Function.comp_def]

theorem indexed_categories (hc : c.WellFormed) : c.indexed.categories = c.categories := by
  have hfull : c.indexed.entries.filter (fun g => !g.2.isEmpty) = c.indexed.entries := by
    refine List.filter_eq_self.mpr fun g hg => ?_
    obtain ⟨g, hmem, rfl⟩ := List.mem_map.mp hg
    simpa [entriesIn] using (hc.groups g hmem).items
  rw [IndexedCatalog.categories, hfull, indexed, List.map_map]
  rfl

theorem indexed_toFields (hc : c.WellFormed) : c.indexed.toFields = c.toFields := by
  rw [IndexedCatalog.toFields, indexed_categories c hc, categories, List.map_map, toFields]
  refine List.map_congr_left fun g hg => ?_
  have hitems : c.items g.1 = g.2 := by
    rw [items, (Json.getKey?_eq_some_iff c.groups hc.distinct g.1 g.2).mpr hg]
    rfl
  simp only [Function.comp_apply, indexed_entriesOf, entriesOf, hitems, List.map_map]
  rfl

theorem check_indexed (category name summary : Json) :
    c.indexed.check category name summary = (c.addValues category name summary).map (·.2) := by
  unfold IndexedCatalog.check addValues
  rw [indexed_isSealed]
  by_cases hsealed : c.isSealed = true
  · rw [if_pos hsealed, if_pos hsealed]
    rfl
  rw [if_neg hsealed, if_neg hsealed]
  cases category with
  | str k =>
    by_cases hk : k = ""
    · subst hk
      rfl
    cases name with
    | str n =>
      by_cases hn : n = ""
      · subst hn
        simp [Except.map]
      cases summary with
      | str s =>
        simp only [hk, hn, indexed_contains, add, hsealed]
        by_cases hcontains : c.contains k n = true <;> simp [hcontains, Except.map]
      | _ => simp [Except.map]
    | _ => simp [Except.map]
  | _ => rfl

/-- An entry is put into both places alike. -/
theorem index_store (summary : String) (hnew : c.contains category name = false) :
    IndexedCatalog.index ⟨category, name, summary⟩
        (IndexedCatalog.store ⟨category, name, summary⟩ c.indexed) =
      indexed { c with groups := append c.groups category ⟨name, summary⟩ } := by
  have hkeys : name ∉ (keyed category (c.items category)).map (·.1) := by
    rw [← Bool.not_eq_true, contains_iff] at hnew
    simpa [keyed, entriesIn, List.map_map, Function.comp_def] using hnew
  have hentries : entriesIn category (c.items category ++ [⟨name, summary⟩]) =
      c.entriesOf category ++ [⟨category, name, summary⟩] := by
    rw [entriesIn, List.map_append]
    rfl
  have hnames : keyed category (c.items category ++ [⟨name, summary⟩]) =
      Json.put (keyed category (c.items category)) name ⟨category, name, summary⟩ := by
    rw [Json.put_of_new _ _ _ hkeys, keyed, hentries, List.map_append]
    rfl
  have hput : append c.groups category ⟨name, summary⟩ =
      Json.put c.groups category (c.items category ++ [⟨name, summary⟩]) :=
    append_eq_put c.groups category ⟨name, summary⟩
  have hstored : Json.put c.indexed.entries category
      (c.indexed.entriesOf category ++ [⟨category, name, summary⟩]) =
      (append c.groups category ⟨name, summary⟩).map fun g => (g.1, entriesIn g.1 g.2) := by
    rw [indexed_entriesOf, ← hentries, hput]
    exact Json.put_map entriesIn c.groups category _
  have hindexed : Json.put c.indexed.names category
      (Json.put (c.indexed.named category) name ⟨category, name, summary⟩) =
      (append c.groups category ⟨name, summary⟩).map fun g => (g.1, keyed g.1 g.2) := by
    rw [indexed_named, ← hnames, hput]
    exact Json.put_map keyed c.groups category _
  exact congrArg₂ (IndexedCatalog.mk · · c.isSealed) hstored hindexed

end

/-- Adding to both places fails as it does for one, and then nothing has been added to either. -/
theorem run_add (c : Catalog) (category name summary : Json) :
    (IndexedCatalog.add category name summary).run c.indexed =
      match c.addValues category name summary with
      | .ok (d, e) => (.ok e, d.indexed)
      | .error e => (.error e, c.indexed) := by
  rw [IndexedCatalog.add, Effect.run_bind, Effect.run_get]
  simp only
  rw [check_indexed]
  cases hadded : c.addValues category name summary with
  | error e => rfl
  | ok r =>
    obtain ⟨d, e⟩ := r
    obtain ⟨-, -, -, hadd⟩ := add_of_addValues c d category name summary e hadded
    obtain ⟨-, -, -, hnew, rfl⟩ := (add_eq_ok_iff c d _ _ _).mp hadd
    rw [← contains_iff, Bool.not_eq_true] at hnew
    exact congrArg (Prod.mk _) (index_store c e.category e.name e.summary hnew)

theorem addValues_str (c : Catalog) (category name summary : String) :
    c.addValues (.str category) (.str name) (.str summary) =
      (c.add category name summary).map (·, ⟨category, name, summary⟩) := by
  unfold addValues
  by_cases hsealed : c.isSealed = true
  · simp [hsealed, add, Except.map]
  by_cases hcategory : category = ""
  · simp [hsealed, hcategory, add, Except.map]
  by_cases hname : name = ""
  · simp [hsealed, hcategory, hname, add, Except.map]
  simp [hsealed]

/-- Adds entries one after another. -/
def addAll (c : Catalog) (es : List CatalogEntry) : Except CatalogError Catalog :=
  es.foldlM (fun c e => c.add e.category e.name e.summary) c

theorem addAll_cons (c : Catalog) (e : CatalogEntry) (es : List CatalogEntry) :
    c.addAll (e :: es) = c.add e.category e.name e.summary >>= (addAll · es) :=
  List.foldlM_cons

theorem addAll_append (c : Catalog) (es fs : List CatalogEntry) :
    c.addAll (es ++ fs) = c.addAll es >>= (addAll · fs) :=
  List.foldlM_append

theorem addRows_written (c : Catalog) (category : String) (items : List CatalogItem) :
    c.addRows category (.arr (items.map itemRow)) =
      (c.addAll (entriesIn category items)).mapError Defect.entry := by
  change (items.map itemRow).foldlM (fun c row => addRow c category row) c = _
  induction items generalizing c with
  | nil => rfl
  | cons i items ih =>
    have hfirst : entriesIn category (i :: items) =
      ⟨category, i.name, i.summary⟩ :: entriesIn category items := rfl
    rw [List.map_cons, List.foldlM_cons, hfirst, addAll_cons]
    change (c.add category i.name i.summary).mapError Defect.entry >>= _ = _
    cases c.add category i.name i.summary with
    | error e => rfl
    | ok d => exact ih d

/-- Reading what is written adds the entries one by one. -/
theorem ofJson_written (c : Catalog) :
    ofJson c.toJson = (addAll {} c.entries).mapError Defect.entry := by
  change c.toFields.foldlM (fun c (f : String × Json) => addRows c f.1 f.2) {} = _
  rw [toFields]
  rw [entries]
  generalize ({} : Catalog) = start
  induction c.groups generalizing start with
  | nil => rfl
  | cons g groups ih =>
    rw [List.map_cons, List.foldlM_cons, addRows_written, List.flatMap_cons, addAll_append]
    change (start.addAll (entriesIn g.1 g.2)).mapError Defect.entry >>= _ =
      (start.addAll (entriesIn g.1 g.2) >>= _).mapError Defect.entry
    cases start.addAll (entriesIn g.1 g.2) with
    | error e => rfl
    | ok d => exact ih d

theorem addAll_entries (c : Catalog) (hc : c.WellFormed) : addAll {} c.entries = .ok c.copy := by
  rw [← Result.mapError_eq_ok_iff Defect.entry, ← ofJson_written]
  exact ofJson_toJson c hc

theorem run_addEntry (c : Catalog) (e : CatalogEntry) : (IndexedCatalog.addEntry e).run c.indexed =
    match c.add e.category e.name e.summary with
    | .ok d => (.ok [e], d.indexed)
    | .error f => (.error f, c.indexed) := by
  rw [IndexedCatalog.addEntry, Effect.run_bind, run_add, addValues_str]
  cases c.add e.category e.name e.summary <;> rfl

theorem run_addEntries (c d : Catalog) (es : List CatalogEntry) (h : c.addAll es = .ok d) :
    (IndexedCatalog.each IndexedCatalog.addEntry es).run c.indexed = (.ok es, d.indexed) := by
  induction es generalizing c with
  | nil =>
    cases h
    rfl
  | cons e es ih =>
    rw [addAll_cons, Result.bind_eq_ok_iff] at h
    obtain ⟨c', hc', h⟩ := h
    rw [IndexedCatalog.each, Effect.run_bind, run_addEntry, hc']
    simp only
    rw [Effect.run_bind, ih c' h]
    rfl

theorem copy_indexed (c : Catalog) (hc : c.WellFormed) :
    c.indexed.copy = (.ok c.entries, c.copy.indexed) := by
  rw [IndexedCatalog.copy, indexed_all]
  exact run_addEntries {} c.copy c.entries (addAll_entries c hc)

/-- The operation on both places does what a function does to the catalog; where there is a result,
it consists in entries added one after another, and these are returned. -/
structure Follows {ε : Type} (x : IndexedAct ε (List CatalogEntry))
    (f : Catalog → Except ε Catalog) : Prop where
  ok : ∀ c d, f c = .ok d → ∃ es, c.addAll es = .ok d ∧ x.run c.indexed = (.ok es, d.indexed)
  error : ∀ c e, f c = .error e → (x.run c.indexed).1 = .error e

theorem follows_each {ε α : Type} (x : α → IndexedAct ε (List CatalogEntry))
    (f : Catalog → α → Except ε Catalog) (as : List α) (h : ∀ a ∈ as, Follows (x a) (f · a)) :
    Follows (IndexedCatalog.each x as) (as.foldlM f) := by
  induction as with
  | nil =>
    refine ⟨fun c d hd => ?_, fun c e he => by cases he⟩
    cases hd
    exact ⟨[], rfl, rfl⟩
  | cons a as ih =>
    rw [List.forall_mem_cons] at h
    have hrest := ih h.2
    constructor
    · intro c d hd
      rw [List.foldlM_cons, Result.bind_eq_ok_iff] at hd
      obtain ⟨c', hc', hd⟩ := hd
      obtain ⟨es, hes, hrun⟩ := h.1.ok c c' hc'
      obtain ⟨fs, hfs, hmore⟩ := hrest.ok c' d hd
      refine ⟨es ++ fs, ?_, ?_⟩
      · rw [addAll_append, hes]
        exact hfs
      · rw [IndexedCatalog.each, Effect.run_bind, hrun]
        simp only
        rw [Effect.run_bind, hmore]
        rfl
    · intro c e he
      rw [IndexedCatalog.each, Effect.run_bind]
      rw [List.foldlM_cons] at he
      cases hc : f c a with
      | error e' =>
        have hfirst := h.1.error c e' hc
        generalize (x a).run c.indexed = o at hfirst
        obtain ⟨r, t⟩ := o
        cases hfirst
        rw [hc] at he
        cases he
        rfl
      | ok c' =>
        obtain ⟨es, -, hrun⟩ := h.1.ok c c' hc
        rw [hc] at he
        have hafter := hrest.error c' e he
        rw [hrun]
        simp only
        rw [Effect.run_bind]
        generalize (IndexedCatalog.each x as).run c'.indexed = o at hafter
        obtain ⟨r, t⟩ := o
        cases hafter
        rfl

theorem follows_throw {ε : Type} (e : ε) : Follows (throw e) fun _ => .error e := by
  refine ⟨fun _ _ => nofun, fun _ _ he => ?_⟩
  cases he
  rfl

theorem run_adapt {ε δ α : Type} (f : ε → δ) (x : IndexedAct ε α) (c : IndexedCatalog) :
    (ExceptT.adapt f x).run c = ((x.run c).1.mapError f, (x.run c).2) := rfl

theorem follows_addRow (category : String) (row : Json) :
    Follows (IndexedCatalog.addRow category row) (addRow · category row) := by
  unfold IndexedCatalog.addRow
  split
  case h_1 name summary more =>
    constructor
    · intro c d hd
      have hadd := (Result.mapError_eq_ok_iff _ _ _).mp hd
      refine ⟨[⟨category, name, summary⟩], ?_, ?_⟩
      · rw [addAll_cons, hadd]
        rfl
      · rw [run_adapt, run_addEntry, hadd]
        rfl
    · intro c e he
      rw [run_adapt, run_addEntry]
      change (c.add category name summary).mapError Defect.entry = .error e at he
      cases hadd : c.add category name summary with
      | ok d =>
        rw [hadd] at he
        cases he
      | error f =>
        rw [hadd] at he
        cases he
        rfl
  case h_2 hrow =>
    have hother : ∀ c : Catalog, c.addRow category row = .error (.row category row) := by
      intro c
      unfold addRow
      split
      · exact absurd rfl (hrow _ _ _)
      · rfl
    rw [funext hother]
    exact follows_throw _

theorem follows_addRows (category : String) (rows : Json) :
    Follows (IndexedCatalog.addRows category rows) (addRows · category rows) := by
  cases rows with
  | arr rows => exact follows_each _ _ rows fun row _ => follows_addRow category row
  | _ => exact follows_throw _

/-- Reading a value gives both places or fails as it does for one. -/
theorem ofJson_indexed (v : Json) :
    (∀ c, ofJson v = .ok c →
      ∃ es, addAll {} es = .ok c ∧ IndexedCatalog.ofJson v = (.ok es, c.indexed)) ∧
    ∀ e, ofJson v = .error e → (IndexedCatalog.ofJson v).1 = .error e := by
  cases v with
  | obj fields =>
    obtain ⟨hok, herror⟩ := follows_each (fun f : String × Json => IndexedCatalog.addRows f.1 f.2)
      (fun c f => addRows c f.1 f.2) fields fun f _ => follows_addRows f.1 f.2
    exact ⟨hok {}, herror {}⟩
  | _ =>
    refine ⟨fun _ => nofun, fun e he => ?_⟩
    cases he
    rfl

/-- What a catalog comes to by the entries that were added to it, in the order of their addition. -/
structure Logged (c : Catalog) (log : List CatalogEntry) : Prop where
  categories : c.categories = (log.map (·.category)).eraseDups
  entriesOf : ∀ k, c.entriesOf k = log.filter (·.category = k)
  size : c.size = log.length

theorem logged_empty : Logged {} [] :=
  ⟨rfl, fun _ => rfl, rfl⟩

theorem size_append (groups : List (String × List CatalogItem)) (category : String)
    (item : CatalogItem) :
    size ⟨append groups category item, false⟩ = size ⟨groups, false⟩ + 1 := by
  unfold size
  induction groups with
  | nil => rfl
  | cons g groups ih =>
    rw [append]
    split
    · simp only [List.map_cons, Number.total, List.length_append, List.length_singleton]
      omega
    · simp only [List.map_cons, Number.total] at ih ⊢
      omega

theorem eraseDups_concat (ks : List String) (k : String) :
    (ks ++ [k]).eraseDups = if k ∈ ks then ks.eraseDups else ks.eraseDups ++ [k] := by
  rw [List.eraseDups_append]
  by_cases hk : k ∈ ks <;> simp [hk, List.removeAll, List.eraseDups_cons]

theorem Logged.add (c d : Catalog) (log : List CatalogEntry) (category name summary : String)
    (h : c.Logged log) (hadd : c.add category name summary = .ok d) :
    d.Logged (log ++ [⟨category, name, summary⟩]) := by
  obtain ⟨-, -, -, -, rfl⟩ := (add_eq_ok_iff c d category name summary).mp hadd
  constructor
  · have hcategories := h.categories
    have hmem : category ∈ c.groups.map (·.1) ↔ category ∈ log.map (·.category) := by
      have hkeys := List.mem_eraseDups (a := category) (l := log.map (·.category))
      rw [← hcategories] at hkeys
      exact hkeys
    rw [List.map_append, List.map_singleton, eraseDups_concat, ← hcategories]
    simp only [Catalog.categories, categories_append, hmem]
  · intro k
    have hk := h.entriesOf k
    rw [Catalog.entriesOf] at hk ⊢
    rw [items_append, List.filter_append, ← hk]
    by_cases heq : category = k <;> simp [heq]
  · have hsize := h.size
    rw [List.length_append, List.length_singleton, ← hsize]
    exact size_append c.groups category _

theorem Logged.addAll (c d : Catalog) (log es : List CatalogEntry) (h : c.Logged log)
    (hadd : c.addAll es = .ok d) : d.Logged (log ++ es) := by
  induction es generalizing c log with
  | nil =>
    cases hadd
    rw [List.append_nil]
    exact h
  | cons e es ih =>
    rw [addAll_cons, Result.bind_eq_ok_iff] at hadd
    obtain ⟨c', hc', hadd⟩ := hadd
    have hlast := ih c' _ (h.add c c' log e.category e.name e.summary hc') hadd
    rw [List.append_assoc] at hlast
    exact hlast

end Catalog

namespace IndexedCatalog

/-- Both places hold the same, and they hold what the catalog does. -/
structure Mirrors (c : IndexedCatalog) (d : Catalog) : Prop where
  built : d.Built
  isSealed : c.isSealed = d.isSealed
  entriesOf : ∀ k, c.entriesOf k = d.entriesOf k
  categories : c.categories = d.categories
  all : c.all = d.entries
  size : c.size = d.size
  get : ∀ k n, c.get k n = d.get k n
  contains : ∀ k n, c.contains k n = d.contains k n
  toJson : c.toJson = d.toJson
  add : ∀ k n s, ((add k n s).run c).1 = (d.addValues k n s).map (·.2)

/-- The list and the index of a catalog describe the same entries, those that were added to it. -/
structure Faithful (c : IndexedCatalog) (log : List CatalogEntry) : Prop where
  get : ∀ k n e, c.get k n = .ok e ↔ e ∈ c.entriesOf k ∧ e.name = n
  missing : ∀ k n, (∀ e ∈ c.entriesOf k, e.name ≠ n) → c.get k n = .error (.notFound k n)
  contains : ∀ k n, c.contains k n = true ↔ ∃ e, c.get k n = .ok e
  distinct : ∀ k, ((c.entriesOf k).map (·.name)).Nodup
  total : c.size = c.all.length
  size : c.size = log.length
  categories : c.categories = (log.map (·.category)).eraseDups
  filled : ∀ k, k ∈ c.categories ↔ c.entriesOf k ≠ []
  entriesOf : ∀ k, c.entriesOf k = log.filter (·.category = k)
  fails : ∀ k n s e d, (add k n s).run c = (.error e, d) → d = c
  copied : ∃ d, c.copy = (.ok c.all, d) ∧ d.Same c ∧ d.isSealed = false
  reread : ∃ es d, ofJson c.toJson = (.ok es, d) ∧ d.Same c
  mirrors : ∃ d : Catalog, c.Mirrors d

end IndexedCatalog

namespace Catalog

theorem mirrors_indexed (c : Catalog) (hc : c.Built) : c.indexed.Mirrors c where
  built := hc
  isSealed := rfl
  entriesOf := c.indexed_entriesOf
  categories := c.indexed_categories hc.wellFormed
  all := c.indexed_all
  size := c.indexed_size
  get := c.indexed_get
  contains := c.indexed_contains
  toJson := congrArg Json.obj (c.indexed_toFields hc.wellFormed)
  add k n s := by
    rw [run_add]
    cases c.addValues k n s <;> rfl

theorem get_eq_ok_iff (c : Catalog) (hc : c.WellFormed) (k n : String) (e : CatalogEntry) :
    c.get k n = .ok e ↔ e ∈ c.entriesOf k ∧ e.name = n := by
  rw [get, item?, entriesOf, List.mem_map]
  constructor
  · intro h
    split at h
    case h_2 => cases h
    case h_1 i hi =>
      cases h
      exact ⟨⟨i, List.mem_of_find?_eq_some hi, rfl⟩, by simpa using List.find?_some hi⟩
  · rintro ⟨⟨i, hi, rfl⟩, rfl⟩
    have hsome : ((c.items k).find? (·.name = i.name)).isSome = true :=
      List.find?_isSome.mpr ⟨i, hi, by simp⟩
    obtain ⟨j, hj⟩ := Option.isSome_iff_exists.mp hsome
    -- the name leads back to the item, as no other item has it
    have hsame : j = i := by
      apply List.inj_on_of_nodup_map (hc.items c k).2 (List.mem_of_find?_eq_some hj) hi
      simpa using List.find?_some hj
    rw [hj, hsame]

theorem get_missing (c : Catalog) (k n : String) (h : ∀ e ∈ c.entriesOf k, e.name ≠ n) :
    c.get k n = .error (.notFound k n) := by
  have hnone : (c.items k).find? (·.name = n) = none := by
    rw [List.find?_eq_none]
    intro i hi hname
    exact h ⟨k, i.name, i.summary⟩ (List.mem_map_of_mem hi) (of_decide_eq_true hname)
  rw [get, item?, hnone]

theorem same_indexed (c d : Catalog) (hc : c.WellFormed) (hd : d.WellFormed)
    (h : d.groups = c.groups) : d.indexed.Same c.indexed := by
  rw [IndexedCatalog.Same, indexed_toFields c hc, indexed_toFields d hd, indexed_categories c hc,
    indexed_categories d hd, toFields, categories, h]
  exact ⟨.refl _, rfl⟩

theorem indexed_faithful (c : Catalog) (hc : c.Built) (log : List CatalogEntry)
    (hlog : c.Logged log) : c.indexed.Faithful log := by
  have hwell := hc.wellFormed
  have hcopy : c.copy.WellFormed := ⟨hwell.distinct, hwell.groups⟩
  constructor
  · intro k n e
    rw [indexed_get, indexed_entriesOf]
    exact get_eq_ok_iff c hwell k n e
  · intro k n h
    rw [indexed_entriesOf] at h
    rw [indexed_get]
    exact get_missing c k n h
  · intro k n
    rw [indexed_contains, indexed_get, contains, get]
    cases c.item? k n <;> simp
  · intro k
    rw [indexed_entriesOf, entriesOf, List.map_map]
    exact (hwell.items c k).2
  · rw [indexed_size, indexed_all]
    exact (logged_empty.addAll {} c.copy [] c.entries (addAll_entries c hwell)).size
  · rw [indexed_size]
    exact hlog.size
  · rw [indexed_categories c hwell]
    exact hlog.categories
  · intro k
    rw [indexed_categories c hwell, indexed_entriesOf, hlog.categories, hlog.entriesOf]
    simp [List.mem_eraseDups]
  · intro k
    rw [indexed_entriesOf]
    exact hlog.entriesOf k
  · intro k n s e d hrun
    rw [run_add] at hrun
    split at hrun
    · cases hrun
    · cases hrun
      rfl
  · rw [indexed_all]
    exact ⟨_, copy_indexed c hwell, same_indexed c c.copy hwell hcopy rfl, rfl⟩
  · obtain ⟨es, -, hes⟩ := (ofJson_indexed c.toJson).1 c.copy (ofJson_toJson c hwell)
    rw [(mirrors_indexed c hc).toJson]
    exact ⟨es, _, hes, same_indexed c c.copy hwell hcopy rfl⟩
  · exact ⟨c, mirrors_indexed c hc⟩

end Catalog

/-- A catalog with the entries that were added to it. -/
structure KeptCatalog where
  catalog : IndexedCatalog := {}
  log : List CatalogEntry := []
deriving DecidableEq, Repr

/-- Calls on catalogs that are told by their numbers. -/
inductive CatalogCall where
  | add (i : Nat) (category name summary : Json)
  | close (i : Nat)
  | copy (i : Nat)
deriving DecidableEq, Repr

namespace KeptCatalog

/-- A catalog that is new, or has been read. -/
inductive Fresh : KeptCatalog → Prop
  | empty : Fresh {}
  | ofJson (v : Json) (hv : v.DistinctKeys) (c : IndexedCatalog) (es : List CatalogEntry)
      (h : IndexedCatalog.ofJson v = (.ok es, c)) : Fresh ⟨c, es⟩

def add (k : KeptCatalog) (category name summary : Json) : KeptCatalog :=
  match (IndexedCatalog.add category name summary).run k.catalog with
  | (.ok e, c) => ⟨c, k.log ++ [e]⟩
  | (.error _, c) => ⟨c, k.log⟩

def close (k : KeptCatalog) : KeptCatalog :=
  { k with catalog := k.catalog.close }

/-- A copy comes last. -/
def apply (cs : List KeptCatalog) : CatalogCall → List KeptCatalog
  | .add i category name summary => cs.modify i (add · category name summary)
  | .close i => cs.modify i close
  | .copy i =>
    match cs[i]? with
    | none => cs
    | some k =>
      match k.catalog.copy with
      | (.ok es, c) => cs ++ [⟨c, es⟩]
      | (.error _, _) => cs

def run (cs : List KeptCatalog) (calls : List CatalogCall) : List KeptCatalog :=
  calls.foldl apply cs

/-- Both places of the catalog are those of one that was built, and the log is its own. -/
def Sound (k : KeptCatalog) : Prop :=
  ∃ c : Catalog, c.Built ∧ k.catalog = c.indexed ∧ c.Logged k.log

theorem Fresh.sound (k : KeptCatalog) (h : k.Fresh) : k.Sound := by
  cases h with
  | empty => exact ⟨{}, .empty, rfl, Catalog.logged_empty⟩
  | ofJson v hv c es h =>
    obtain ⟨hok, herror⟩ := Catalog.ofJson_indexed v
    cases hread : Catalog.ofJson v with
    | error e => cases (congrArg Prod.fst h).symm.trans (herror e hread)
    | ok d =>
      obtain ⟨es', hes, hd⟩ := hok d hread
      cases h.symm.trans hd
      exact ⟨d, .ofJson v d hv hread, rfl, Catalog.logged_empty.addAll {} d [] es hes⟩

theorem Sound.add (k : KeptCatalog) (h : k.Sound) (category name summary : Json) :
    (k.add category name summary).Sound := by
  obtain ⟨c, hc, hk, hlog⟩ := h
  rw [KeptCatalog.add, hk, Catalog.run_add]
  cases hadded : c.addValues category name summary with
  | error e => exact ⟨c, hc, rfl, hlog⟩
  | ok r =>
    obtain ⟨d, e⟩ := r
    obtain ⟨-, -, -, hadd⟩ := Catalog.add_of_addValues c d category name summary e hadded
    exact ⟨d, .addValues c d category name summary e hc hadded, rfl, hlog.add c d _ _ _ _ hadd⟩

theorem Sound.close (k : KeptCatalog) (h : k.Sound) : k.close.Sound := by
  obtain ⟨c, hc, hk, hlog⟩ := h
  refine ⟨c.close, .close c hc, ?_, hlog.categories, hlog.entriesOf, hlog.size⟩
  rw [KeptCatalog.close, hk]
  rfl

theorem Sound.copy (k : KeptCatalog) (h : k.Sound) :
    ∃ es d, k.catalog.copy = (.ok es, d) ∧ Sound ⟨d, es⟩ := by
  obtain ⟨c, hc, hk, -⟩ := h
  have hwell := hc.wellFormed
  refine ⟨c.entries, c.copy.indexed, hk ▸ Catalog.copy_indexed c hwell, c.copy, .copy c hc, rfl, ?_⟩
  exact Catalog.logged_empty.addAll {} c.copy [] c.entries (Catalog.addAll_entries c hwell)

theorem forall_modify {α : Type} (as : List α) (i : Nat) (f : α → α) (p : α → Prop)
    (h : ∀ a ∈ as, p a) (hf : ∀ a, p a → p (f a)) : ∀ a ∈ as.modify i f, p a := by
  intro b hb
  obtain ⟨j, hj⟩ := List.mem_iff_getElem?.mp hb
  rw [List.getElem?_modify] at hj
  obtain ⟨a, ha, rfl⟩ := Option.map_eq_some_iff.mp hj
  have hold := h a (List.mem_of_getElem? ha)
  split
  · exact hf a hold
  · exact hold

theorem apply_sound (cs : List KeptCatalog) (h : ∀ k ∈ cs, k.Sound) (call : CatalogCall) :
    ∀ k ∈ apply cs call, k.Sound := by
  cases call with
  | add i category name summary =>
    exact forall_modify cs i _ Sound h fun k hk => hk.add k category name summary
  | close i => exact forall_modify cs i _ Sound h fun k hk => hk.close k
  | copy i =>
    rw [apply]
    cases hi : cs[i]? with
    | none => exact h
    | some k =>
      obtain ⟨es, d, hcopy, hd⟩ := (h k (List.mem_of_getElem? hi)).copy k
      simp only [hcopy]
      rw [List.forall_mem_append]
      exact ⟨h, List.forall_mem_singleton.mpr hd⟩

/-- A sealed catalog takes nothing more. -/
theorem apply_sealed (cs : List KeptCatalog) (i : Nat) (k : KeptCatalog) (hk : cs[i]? = some k)
    (hsealed : k.catalog.isSealed = true) (call : CatalogCall) : (apply cs call)[i]? = some k := by
  cases call with
  | add j category name summary =>
    have hcheck : k.catalog.check category name summary = .error .isSealed := if_pos hsealed
    have hsame : k.add category name summary = k := by
      rw [KeptCatalog.add, IndexedCatalog.add, Effect.run_bind, Effect.run_get]
      simp only [hcheck]
      rfl
    rw [apply, List.getElem?_modify, hk]
    simp [hsame]
  | close j =>
    have hsame : k.close = k := by
      rw [KeptCatalog.close, IndexedCatalog.close, ← hsealed]
    rw [apply, List.getElem?_modify, hk]
    simp [hsame]
  | copy j =>
    obtain ⟨hlength, -⟩ := List.getElem?_eq_some_iff.mp hk
    rw [apply]
    split
    · exact hk
    · split
      · rw [List.getElem?_append_left hlength]
        exact hk
      · exact hk

theorem run_sealed (cs : List KeptCatalog) (i : Nat) (k : KeptCatalog) (hk : cs[i]? = some k)
    (hsealed : k.catalog.isSealed = true) (calls : List CatalogCall) :
    (run cs calls)[i]? = some k := by
  induction calls generalizing cs with
  | nil => exact hk
  | cons call calls ih => exact ih _ (apply_sealed cs i k hk hsealed call)

theorem run_sound (cs : List KeptCatalog) (h : ∀ k ∈ cs, k.Sound) (calls : List CatalogCall) :
    ∀ k ∈ run cs calls, k.Sound := by
  induction calls generalizing cs with
  | nil => exact h
  | cons call calls ih => exact ih _ (apply_sound cs h call)

/-- However calls are made on a new catalog or one that was read, and on copies of it, the list and
the index of each of them describe the entries that were added to it, a refused addition leaves it
as it was, and once it is closed nothing changes any more. -/
theorem run_faithful (start : KeptCatalog) (h : start.Fresh) (calls : List CatalogCall) :
    (∀ k ∈ run [start] calls, k.catalog.Faithful k.log) ∧
    ∀ i k, (run [start] calls)[i]? = some k → ∀ more,
      (run [start] (calls ++ .close i :: more))[i]? = some k.close := by
  constructor
  · intro k hk
    have hstart := List.forall_mem_singleton.mpr h.sound
    obtain ⟨c, hc, hkept, hlog⟩ := run_sound [start] hstart calls k hk
    rw [hkept]
    exact c.indexed_faithful hc k.log hlog
  · intro i k hk more
    have hclosed : (apply (run [start] calls) (.close i))[i]? = some k.close := by
      rw [apply, List.getElem?_modify_eq, hk]
      rfl
    rw [run, List.foldl_append, List.foldl_cons]
    exact run_sealed _ i k.close hclosed rfl more

/-- A row with more than two values, and a category without rows. -/
def shelfRows : Json :=
  .obj [("b", .arr [.arr [.str "x", .str "1"]]), ("c", .arr []),
    ("a", .arr [.arr [.str "y", .str "", .int 3]])]

def shelf : KeptCatalog :=
  ⟨(IndexedCatalog.ofJson shelfRows).2, [⟨"b", "x", "1"⟩, ⟨"a", "y", ""⟩]⟩

/-- Additions that are refused come between others, before a copy is made and after the catalog is
sealed. -/
def shelfCalls : List CatalogCall :=
  [.add 0 (.str "b") (.str "z") (.str "2"), .add 0 (.str "b") (.str "x") (.str "3"),
    .add 0 (.str "b") .null .null, .copy 0, .close 0, .add 0 (.str "d") (.str "v") (.str ""),
    .add 1 (.str "c") (.str "w") (.str "")]

theorem run_faithful_shelf : shelf.Fresh ∧
    (run [shelf] shelfCalls).map (·.log) =
      [[⟨"b", "x", "1"⟩, ⟨"a", "y", ""⟩, ⟨"b", "z", "2"⟩],
        [⟨"b", "x", "1"⟩, ⟨"b", "z", "2"⟩, ⟨"a", "y", ""⟩, ⟨"c", "w", ""⟩]] ∧
    (∀ k ∈ run [shelf] shelfCalls, k.catalog.Faithful k.log) ∧
    ∃ k, (run [shelf] shelfCalls)[1]? = some k ∧
      (run [shelf] (shelfCalls ++ .close 1 :: shelfCalls))[1]? = some k.close := by
  have hfresh : shelf.Fresh :=
    .ofJson shelfRows (by simp [shelfRows, Json.DistinctKeys]) _ _ (by decide +kernel)
  obtain ⟨hfaithful, hclosed⟩ := run_faithful shelf hfresh shelfCalls
  refine ⟨hfresh, by decide +kernel, hfaithful, ?_⟩
  have hthere : ((run [shelf] shelfCalls)[1]?).isSome = true := by decide +kernel
  obtain ⟨k, hk⟩ := Option.isSome_iff_exists.mp hthere
  exact ⟨k, hk, hclosed 1 k hk shelfCalls⟩

end KeptCatalog

end DocNavigation
