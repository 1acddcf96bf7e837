import DocNavigation.Proofs.Tree.Growth
import DocNavigation.Proofs.Tree.Handles

/-!
Trees in the hands of those who hold handles to their nodes. Whatever is called through whichever
handle, and whether it is refused or not, in every node of every tree the names are distinct
segments, and every handle that was ever returned still leads to a node.
-/

namespace DocNavigation

namespace Tree

/-- The second tree came of the first by calls: no place was lost. -/
structure Grows (t u : Tree) : Prop where
  wellFormed : u.WellFormed
  name : u.name = t.name
  places : ∀ q, (t.at? q).isSome = true → (u.at? q).isSome = true

theorem Grows.refl (t : Tree) (h : t.WellFormed) : Grows t t :=
  ⟨h, rfl, fun _ hq => hq⟩

theorem insertFile_grows (t u : Tree) (path : List String) (ht : t.WellFormed) (hne : path ≠ [])
    (hpath : ∀ s ∈ path, Name.isSegment s = true) (h : t.insertFile path = .ok u) : Grows t u := by
  obtain ⟨hu, hname⟩ := insertFile_wellFormed t u path ht hne hpath h
  refine ⟨hu, hname, fun q hq => ?_⟩
  rw [(insertFile_ok t u path h).2, at?_grow_isSome_iff _ (addFile_name _) (addFile_dirs _)]
  exact .inr hq

theorem insertDirectory_grows (t u : Tree) (path : List String) (ht : t.WellFormed)
    (hpath : ∀ s ∈ path, Name.isSegment s = true) (h : t.insertDirectory path = .ok u) :
    Grows t u ∧ (u.at? path).isSome = true := by
  obtain ⟨hu, hname⟩ := insertDirectory_wellFormed t u path ht hpath h
  have hplaces := fun q => at?_grow_isSome_iff id (fun _ => rfl) (fun _ => rfl) path q t
  rw [← (insertDirectory_ok t u path h).2] at hplaces
  exact ⟨⟨hu, hname, fun q hq => (hplaces q).mpr (.inr hq)⟩,
    (hplaces path).mpr (.inl (List.prefix_refl path))⟩

/-- What is left of a tree by an insertion, refused or not. -/
theorem insertFileStepwise_grows (t : Tree) (path : List String) (ht : t.WellFormed)
    (hne : path ≠ []) (hpath : ∀ s ∈ path, Name.isSegment s = true) :
    Grows t (t.insertFileStepwise path).1 := by
  rw [insertFileStepwise_eq t path hne]
  cases h : t.insertFile path with
  | ok u => exact insertFile_grows t u path ht hne hpath h
  | error e => exact .refl t ht

theorem withSeal_grows (sealing : Bool) (t : Tree) (ht : t.WellFormed) :
    Grows t (t.withSeal sealing) := by
  refine ⟨withSeal_wellFormed sealing t ht, withSeal_name sealing t, fun q hq => ?_⟩
  rw [at?_withSeal, Option.isSome_map]
  exact hq

/-- A tree and everything below it. -/
inductive Within : Tree → Tree → Prop
  | self (t : Tree) : Within t t
  | deeper (t d u : Tree) (hd : d ∈ t.dirs) (h : Within d u) : Within t u

theorem Within.wellFormed (t u : Tree) (h : Within t u) (ht : t.WellFormed) : u.WellFormed := by
  induction h with
  | self t => exact ht
  | deeper t d u hd _ ih => exact ih (((wellFormed_iff t).mp ht).2 d hd)

end Tree

/-- Shared trees, and the handles that calls have returned so far. -/
structure Holding where
  grove : Grove := {}
  handles : List Handle := []
deriving Repr

namespace Holding

/-- What can be called on a node. -/
inductive NodeCall where
  | insertFile (path : Json)
  | insertDirectory (path : Json)
  | find (path : Json)
  | copy
  | close

/-- A new tree, or a call through one of the handles, given by its number. -/
inductive Request where
  | empty (name : String)
  | ofJson (v : Json)
  | call (handle : Nat) (c : NodeCall)

def returning (s : Holding) (g : Grove) (h : Handle) : Holding :=
  ⟨g, s.handles ++ [h]⟩

def planting (s : Holding) (t : Tree) : Holding :=
  s.returning (s.grove.plant t).1 (s.grove.plant t).2

def call (s : Holding) (h : Handle) : NodeCall → Holding
  | .insertFile v =>
    match Tree.segmentsOf v with
    | .error _ => s
    | .ok path =>
      { s with grove := s.grove.setNode h ((s.grove.node h).insertFileStepwise path).1 }
  | .insertDirectory v =>
    match Tree.segmentsOf v with
    | .error _ => s
    | .ok path =>
      match s.grove.insertDirectory h path with
      | (g, .ok n) => s.returning g n
      | (g, .error _) => { s with grove := g }
  | .find v =>
    match Tree.segmentsOf v with
    | .error _ => s
    | .ok path =>
      match s.grove.find? h path with
      | some n => s.returning s.grove n
      | none => s
  | .copy => s.planting (s.grove.node h).copy
  | .close => { s with grove := s.grove.close h }

def serve (s : Holding) : Request → Holding
  | .empty n => s.planting (Tree.empty n)
  | .ofJson v =>
    match Tree.ofJson v with
    | .error _ => s
    | .ok t => s.planting t
  | .call number c =>
    match s.handles[number]? with
    | none => s
    | some h => s.call h c

/-- All requests one after the other, from no trees at all. -/
def run (requests : List Request) : Holding :=
  requests.foldl serve {}

structure Sound (s : Holding) : Prop where
  trees : ∀ t ∈ s.grove.trees, t.WellFormed
  alive : ∀ h ∈ s.handles, (s.grove.node? h).isSome = true

section
variable (s : Holding) (hs : s.Sound)

include hs in
theorem returning_sound (h : Handle) (hh : (s.grove.node? h).isSome = true) :
    (s.returning s.grove h).Sound := by
  refine ⟨hs.trees, fun k hk => ?_⟩
  rcases List.mem_append.mp hk with hk | hk
  · exact hs.alive k hk
  · rw [List.mem_singleton.mp hk]
    exact hh

include hs in
theorem planting_sound (t : Tree) (ht : t.WellFormed) : (s.planting t).Sound := by
  refine ⟨fun u hu => ?_, fun h hh => ?_⟩
  · rcases List.mem_append.mp hu with hu | hu
    · exact hs.trees u hu
    · rw [List.mem_singleton.mp hu]
      exact ht
  · change (((s.grove.trees ++ [t])[h.tree]?).bind (·.at? h.path)).isSome = true
    rcases List.mem_append.mp hh with hh | hh
    · have halive := hs.alive h hh
      obtain ⟨x, hx⟩ := Option.isSome_iff_exists.mp halive
      obtain ⟨whole, hwhole, -⟩ := Option.bind_eq_some_iff.mp hx
      have hold : (s.grove.trees ++ [t])[h.tree]? = s.grove.trees[h.tree]? :=
        List.getElem?_append_left (List.getElem?_eq_some_iff.mp hwhole).1
      rw [hold]
      exact halive
    · rw [List.mem_singleton.mp hh]
      simp [Grove.plant, Tree.at?]

include hs in
/-- A change that grows the node behind a handle. -/
theorem setNode_sound (h : Handle) (u : Tree)
    (hu : ∀ x, s.grove.node? h = some x → Tree.Grows x u) :
    Sound { s with grove := s.grove.setNode h u } := by
  refine ⟨fun v hv => ?_, fun k hk => ?_⟩
  · obtain ⟨i, hi⟩ := List.mem_iff_getElem?.mp hv
    simp only [Grove.setNode, List.getElem?_modify] at hi
    obtain ⟨t, ht, rfl⟩ := Option.map_eq_some_iff.mp hi
    have hwell := hs.trees t (List.mem_of_getElem? ht)
    by_cases htree : h.tree = i
    · rw [if_pos htree]
      cases hx : t.at? h.path with
      | none =>
        rw [Tree.replaceAt_missing u h.path t hx]
        exact hwell
      | some x =>
        have hgrows := hu x (by rw [Grove.node?, htree, ht]; exact hx)
        exact (Tree.replaceAt_wellFormed u h.path t x hwell hx hgrows.wellFormed hgrows.name).1
    · rw [if_neg htree]
      exact hwell
  · apply Grove.node?_setNode_isSome s.grove h k u _ (hs.alive k hk)
    exact fun x hx => ⟨(hu x hx).name, (hu x hx).places⟩

include hs in
theorem call_sound (h : Handle) (hh : h ∈ s.handles) (c : NodeCall) : (s.call h c).Sound := by
  obtain ⟨x, hx⟩ := Option.isSome_iff_exists.mp (hs.alive h hh)
  have hnode := Grove.node_of_node? s.grove h x hx
  obtain ⟨whole, hwhole, hat⟩ := Option.bind_eq_some_iff.mp hx
  have hwell : x.WellFormed :=
    Tree.at?_wellFormed h.path whole x (hs.trees whole (List.mem_of_getElem? hwhole)) hat
  have hset : ∀ u, Tree.Grows x u → Sound { s with grove := s.grove.setNode h u } := by
    intro u hu
    apply setNode_sound s hs h u
    intro y hy
    rw [hx] at hy
    cases hy
    exact hu
  cases c with
  | insertFile v =>
    rw [call]
    cases hv : Tree.segmentsOf v with
    | error e => exact hs
    | ok path =>
      obtain ⟨hne, hpath⟩ := Tree.segmentsOf_segments v path hv
      rw [hnode]
      exact hset _ (Tree.insertFileStepwise_grows x path hwell hne hpath)
  | insertDirectory v =>
    rw [call]
    cases hv : Tree.segmentsOf v with
    | error e => exact hs
    | ok path =>
      simp only [Grove.insertDirectory, Grove.edit, hnode]
      cases hu : x.insertDirectory path with
      | error e => exact hs
      | ok u =>
        obtain ⟨hgrows, hmade⟩ := Tree.insertDirectory_grows x u path hwell
          (Tree.segmentsOf_segments v path hv).2 hu
        apply returning_sound _ (hset u hgrows)
        have hself := Grove.node?_setNode_self s.grove h x u hx hgrows.name
        rw [Grove.node?_append _ h u hself path]
        exact hmade
  | find v =>
    rw [call]
    cases hv : Tree.segmentsOf v with
    | error e => exact hs
    | ok path =>
      simp only [Grove.find?, hnode]
      split
      case h_1 n hn =>
        split at hn
        case isFalse => cases hn
        case isTrue hthere =>
          cases hn
          apply returning_sound s hs
          rw [Grove.node?_append s.grove h x hx path]
          exact hthere
      case h_2 => exact hs
  | copy =>
    rw [call, hnode]
    exact planting_sound s hs x.copy (Tree.withSeal_wellFormed false x hwell)
  | close =>
    rw [call, Grove.close, hnode]
    exact hset _ (Tree.withSeal_grows true x hwell)

include hs in
theorem serve_sound (r : Request) : (s.serve r).Sound := by
  cases r with
  | empty n => exact planting_sound s hs (Tree.empty n) (Tree.wellFormed_empty n)
  | ofJson v =>
    rw [serve]
    cases hv : Tree.ofJson v with
    | error e => exact hs
    | ok t => exact planting_sound s hs t (Tree.ofJson_wellFormed v t hv)
  | call number c =>
    rw [serve]
    cases hh : s.handles[number]? with
    | none => exact hs
    | some h => exact call_sound s hs h (List.mem_of_getElem? hh) c

end

theorem run_sound (requests : List Request) : (run requests).Sound := by
  have hfrom : ∀ s : Holding, s.Sound → (requests.foldl serve s).Sound := by
    induction requests with
    | nil => exact fun s hs => hs
    | cons r requests ih => exact fun s hs => ih _ (serve_sound s hs r)
  exact hfrom {} ⟨by simp, by simp⟩

/-- After any requests every returned handle leads to a node, and in every node of every tree the
names of directories and files are distinct segments. -/
theorem run_names (requests : List Request) :
    (∀ h ∈ (run requests).handles, ((run requests).grove.node? h).isSome = true) ∧
    ∀ t ∈ (run requests).grove.trees, ∀ u, t.Within u →
      (u.dirs.map Tree.name ++ u.files).Nodup ∧
      ∀ n ∈ u.dirs.map Tree.name ++ u.files,
        n ≠ "" ∧ n ≠ "." ∧ n ≠ ".." ∧ '/' ∉ n.toList ∧ '\\' ∉ n.toList := by
  have hsound := run_sound requests
  refine ⟨hsound.alive, fun t ht u hu => ?_⟩
  have hwell := Tree.Within.wellFormed t u hu (hsound.trees t ht)
  have horder := ((Tree.wellFormed_iff u).mp hwell).1
  refine ⟨horder.distinct, fun n hn => (Name.isSegment_iff n).mp ?_⟩
  rcases List.mem_append.mp hn with hn | hn
  · obtain ⟨d, hd, rfl⟩ := List.mem_map.mp hn
    exact horder.dirNames d hd
  · exact horder.fileNames n hn

/-- One tree, worked on through its root, through the directory `a` and through a copy of it; two of
the calls are refused. -/
def shared : List Request :=
  [.empty "", .call 0 (.insertDirectory (.str "a")), .call 1 (.insertFile (.str "b/c")),
   .call 0 (.insertFile (.str "a/b")), .call 1 (.insertFile (.str "d")), .call 1 .copy,
   .call 0 .close, .call 1 (.insertFile (.str "e")), .call 2 (.insertFile (.str "e"))]

theorem run_names_shared : ∃ t ∈ (run shared).grove.trees, ∃ u, t.Within u ∧
    u.dirs.map Tree.name ++ u.files = ["b", "d", "e"] ∧
    (u.dirs.map Tree.name ++ u.files).Nodup ∧ "e" ≠ ".." := by
  let u : Tree := .node "a" false [.node "b" false [] ["c"]] ["d", "e"]
  have hu : u ∈ (run shared).grove.trees := by decide +kernel
  have hnames := (run_names shared).2 u hu u (.self u)
  exact ⟨u, hu, u, .self u, rfl, hnames.1, (hnames.2 "e" (by decide)).2.2.1⟩

end Holding

end DocNavigation
