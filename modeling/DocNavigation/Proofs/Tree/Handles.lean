import DocNavigation.Proofs.Registry.Add
import DocNavigation.Proofs.Tree.Seals

/-!
How long a seal holds. A closed node stays as it is whatever is done from within it, beside it or
from a closed node above it. An insertion that starts from an open node above and whose path leads
through it is not held back: it looks at no seal but that of its own start.
-/

namespace DocNavigation

/-- What is done through a handle. -/
inductive Call where
  | insertFile (h : Handle) (path : Json)
  | insertDirectory (h : Handle) (path : Json)
  | close (h : Handle)

namespace Grove

/-- The node behind a handle, if there is one. -/
def node? (g : Grove) (h : Handle) : Option Tree :=
  (g.trees[h.tree]?).bind (·.at? h.path)

def perform (g : Grove) : Call → Grove × Except TreeError Unit
  | .insertFile h v =>
    match Tree.segmentsOf v with
    | .error e => (g, .error e)
    | .ok path => g.insertFile h path
  | .insertDirectory h v =>
    match Tree.segmentsOf v with
    | .error e => (g, .error e)
    | .ok path =>
      match g.insertDirectory h path with
      | (g, .ok _) => (g, .ok ())
      | (g, .error e) => (g, .error e)
  | .close h => (g.close h, .ok ())

theorem node_of_node? (g : Grove) (h : Handle) (x : Tree) (hx : g.node? h = some x) :
    g.node h = x := by
  change (g.node? h).getD (Tree.empty "") = x
  rw [hx]
  rfl

/-- Following a longer handle is following the rest of it from the shorter one's node. -/
theorem node?_append (g : Grove) (n : Handle) (x : Tree) (hx : g.node? n = some x)
    (rest : List String) : g.node? ⟨n.tree, n.path ++ rest⟩ = x.at? rest := by
  obtain ⟨t, ht, hat⟩ := Option.bind_eq_some_iff.mp hx
  rw [node?, ht, Option.bind_some, Tree.at?_append, hat, Option.bind_some]

/-- A change that leaves alone what is at a handle and below it, and what the way from above to it
leads to, is not seen there. -/
theorem node?_setNode (g : Grove) (h n : Handle) (u N : Tree) (hN : g.node? n = some N)
    (hname : ∀ x, g.node? h = some x → u.name = x.name)
    (hwithin : h.tree = n.tree → n.path <+: h.path → ∀ x, g.node? h = some x → u = x)
    (habove : ∀ rest x, h.tree = n.tree → h.path ++ rest = n.path → ¬ n.path <+: h.path →
      g.node? h = some x → u.at? rest = x.at? rest) : (g.setNode h u).node? n = some N := by
  by_cases htree : h.tree = n.tree
  case neg =>
    simp only [node?, setNode, List.getElem?_modify, if_neg htree, id_map']
    exact hN
  obtain ⟨t, ht, hat⟩ := Option.bind_eq_some_iff.mp hN
  have hafter : (g.setNode h u).node? n = (Tree.replaceAt u h.path t).at? n.path := by
    simp only [node?, setNode, List.getElem?_modify, if_pos htree, ht]
    rfl
  rw [hafter]
  cases hx : t.at? h.path with
  | none =>
    rw [Tree.replaceAt_missing u h.path t hx]
    exact hat
  | some x =>
    have hnode : g.node? h = some x := by
      rw [node?, htree, ht]
      exact hx
    -- the change is within the node, above it or beside it
    by_cases hbelow : n.path <+: h.path
    · rw [hwithin htree hbelow x hnode, Tree.replaceAt_self x h.path t hx]
      exact hat
    by_cases hover : h.path <+: n.path
    · obtain ⟨rest, hrest⟩ := hover
      rw [← hrest, Tree.at?_replaceAt u h.path t x hx (hname x hnode) rest,
        habove rest x htree hrest hbelow hnode]
      rw [← hrest, Tree.at?_append, hx] at hat
      exact hat
    · rw [Tree.at?_replaceAt_beside u h.path t x hx (hname x hnode) n.path hover hbelow]
      exact hat

/-- A change that leaves the places of a node leaves every handle its node. -/
theorem node?_setNode_isSome (g : Grove) (h k : Handle) (u : Tree)
    (hu : ∀ x, g.node? h = some x →
      u.name = x.name ∧ ∀ q, (x.at? q).isSome = true → (u.at? q).isSome = true)
    (hk : (g.node? k).isSome = true) : ((g.setNode h u).node? k).isSome = true := by
  simp only [node?, setNode, List.getElem?_modify]
  by_cases htree : h.tree = k.tree
  case neg =>
    simp only [if_neg htree, id_map']
    exact hk
  obtain ⟨y, hy⟩ := Option.isSome_iff_exists.mp hk
  obtain ⟨t, ht, hat⟩ := Option.bind_eq_some_iff.mp hy
  simp only [if_pos htree, ht, Option.map_eq_map, Option.map_some, Option.bind_some]
  have hplace : (t.at? k.path).isSome = true := by
    rw [hat]
    rfl
  cases hx : t.at? h.path with
  | none =>
    rw [Tree.replaceAt_missing u h.path t hx]
    exact hplace
  | some x =>
    obtain ⟨hname, hplaces⟩ := hu x (by rw [node?, htree, ht]; exact hx)
    exact Tree.replaceAt_places u h.path t x hx hname hplaces k.path hplace

/-- The way from a handle above to another one, within the node behind it. -/
theorem at?_of_above (g : Grove) (h n : Handle) (x : Tree) (rest : List String)
    (htree : h.tree = n.tree) (hrest : h.path ++ rest = n.path) (hx : g.node? h = some x) :
    x.at? rest = g.node? n := by
  rw [← node?_append g h x hx rest, htree, hrest]

section
variable (g : Grove) (h n : Handle) (t : Tree) (hn : g.node? n = some t.close)

include hn in
theorem close_of_within (htree : h.tree = n.tree) (hpath : n.path <+: h.path) (x : Tree)
    (hx : g.node? h = some x) : ∃ y : Tree, x = y.close := by
  obtain ⟨rest, hrest⟩ := hpath
  have hat := at?_of_above g n h t.close rest htree.symm hrest hn
  rw [Tree.close, Tree.at?_withSeal, hx, Option.map_eq_some_iff] at hat
  obtain ⟨y, -, rfl⟩ := hat
  exact ⟨y, rfl⟩

include hn in
theorem node?_close : (g.close h).node? n = some t.close := by
  apply node?_setNode g h n _ _ hn
  · intro x hx
    rw [node_of_node? g h x hx]
    exact Tree.withSeal_name true x
  · intro htree hpath x hx
    obtain ⟨y, rfl⟩ := close_of_within g h n t hn htree hpath x hx
    rw [node_of_node? g h _ hx]
    exact Tree.withSeal_withSeal true true y
  · intro rest x htree hrest _ hx
    have hat := at?_of_above g h n x rest htree hrest hx
    rw [node_of_node? g h x hx, Tree.close, Tree.at?_withSeal, hat, hn]
    exact congrArg some (Tree.withSeal_withSeal true true t)

include hn in
/-- An insertion, told by what it makes of the node that it starts from. -/
theorem node?_edit (f : Tree → Except TreeError Tree)
    (hname : ∀ x u, f x = .ok u → u.name = x.name)
    (hsealed : ∀ x : Tree, x.isSealed = true → f x = .error .isSealed)
    (habove : ∀ rest x u, h.tree = n.tree → h.path ++ rest = n.path → ¬ n.path <+: h.path →
      g.node? h = some x → x.at? rest = some t.close → f x = .ok u → u.at? rest = x.at? rest) :
    (g.edit h f).1.node? n = some t.close := by
  rw [edit]
  split
  case h_2 => exact hn
  case h_1 u hu =>
    apply node?_setNode g h n u _ hn
    · intro x hx
      rw [node_of_node? g h x hx] at hu
      exact hname x u hu
    · intro htree hpath x hx
      obtain ⟨y, rfl⟩ := close_of_within g h n t hn htree hpath x hx
      rw [node_of_node? g h _ hx, hsealed] at hu
      · cases hu
      · cases y
        rfl
    · intro rest x htree hrest hnot hx
      have hat := at?_of_above g h n x rest htree hrest hx
      rw [node_of_node? g h x hx] at hu
      exact habove rest x u htree hrest hnot hx (hat.trans hn) hu

end

/-- The insertion starts from an open node above, and its path leads through the node. -/
def Passes (g : Grove) (n h : Handle) (v : Json) : Prop :=
  h.tree = n.tree ∧ ¬ n.path <+: h.path ∧ (g.node h).isSealed = false ∧
    ∃ path, Tree.segmentsOf v = .ok path ∧ n.path <+: h.path ++ path.dropLast

def PassesThrough (g : Grove) (n : Handle) : Call → Prop
  | .insertFile h v | .insertDirectory h v => g.Passes n h v
  | .close _ => False

theorem fst_insertDirectory (g : Grove) (h : Handle) (path : List String) :
    (g.insertDirectory h path).1 = (g.edit h (·.insertDirectory path)).1 := by
  rw [insertDirectory]
  split
  case h_1 g' heq => rw [heq]
  case h_2 g' e heq => rw [heq]

theorem fst_perform_insertDirectory (g : Grove) (h : Handle) (v : Json) (path : List String)
    (hv : Tree.segmentsOf v = .ok path) :
    (g.perform (.insertDirectory h v)).1 = (g.edit h (·.insertDirectory path)).1 := by
  rw [perform, hv, ← fst_insertDirectory]
  simp only
  split
  case h_1 g' _ heq => rw [heq]
  case h_2 g' e heq => rw [heq]

section
variable (g : Grove) (n : Handle) (t : Tree) (hn : g.node? n = some t.close)

include hn in
/-- One call leaves a closed node as it is, unless it passes through from above. -/
theorem node?_perform (c : Call) (hc : ¬ g.PassesThrough n c) :
    (g.perform c).1.node? n = some t.close := by
  cases c with
  | close h => exact node?_close g h n t hn
  | insertFile h v =>
    cases hv : Tree.segmentsOf v with
    | error e =>
      rw [perform, hv]
      exact hn
    | ok path =>
      rw [perform, hv]
      apply node?_edit g h n t hn (·.insertFile path)
      · intro x u hu
        rw [(Tree.insertFile_ok x u path hu).2]
        exact Tree.grow_name _ (Tree.addFile_name _) _ x
      · exact fun x hx => Tree.insertFile_sealed x path hx
      · intro rest x u htree hrest hnot hx _ hu
        obtain ⟨hopen, rfl⟩ := Tree.insertFile_ok x u path hu
        apply Tree.at?_grow _ (Tree.addFile_name _) (Tree.addFile_dirs _)
        -- only a file below the node could be seen there, and its path passes through
        intro hthrough
        apply hc
        refine ⟨htree, hnot, ?_, path, hv, ?_⟩
        · rw [node_of_node? g h x hx]
          exact hopen
        · rw [← hrest]
          exact (List.prefix_append_right_inj h.path).mpr hthrough
  | insertDirectory h v =>
    cases hv : Tree.segmentsOf v with
    | error e =>
      rw [perform, hv]
      exact hn
    | ok path =>
      rw [fst_perform_insertDirectory g h v path hv]
      apply node?_edit g h n t hn (·.insertDirectory path)
      · intro x u hu
        rw [(Tree.insertDirectory_ok x u path hu).2]
        exact Tree.grow_name id (fun _ => rfl) _ x
      · exact fun x hx => Tree.insertDirectory_sealed x path hx
      · intro rest x u htree hrest hnot hx hat hu
        obtain ⟨hopen, rfl⟩ := Tree.insertDirectory_ok x u path hu
        by_cases hend : rest = path
        · -- the directory is there, and nothing is created
          rw [Tree.grow_id_of_at? path x t.close (hend ▸ hat)]
        apply Tree.at?_grow id (fun _ => rfl) (fun _ => rfl)
        intro hstart
        apply hc
        refine ⟨htree, hnot, ?_, path, hv, ?_⟩
        · rw [node_of_node? g h x hx]
          exact hopen
        · obtain ⟨more, rfl⟩ := hstart
          have hmore : more ≠ [] := by
            rintro rfl
            exact hend (List.append_nil rest).symm
          rw [← hrest, List.dropLast_append_of_ne_nil hmore, ← List.append_assoc]
          exact List.prefix_append _ _

include hn in
/-- From the node itself and from below it nothing can be inserted. -/
theorem perform_within (h : Handle) (v : Json) (path : List String) (htree : h.tree = n.tree)
    (hpath : n.path <+: h.path) (hthere : (g.node? h).isSome = true)
    (hv : Tree.segmentsOf v = .ok path) :
    g.perform (.insertFile h v) = (g, .error .isSealed) ∧
      g.perform (.insertDirectory h v) = (g, .error .isSealed) := by
  obtain ⟨x, hx⟩ := Option.isSome_iff_exists.mp hthere
  obtain ⟨y, rfl⟩ := close_of_within g h n t hn htree hpath x hx
  have hsealed : (g.node h).isSealed = true := by
    rw [node_of_node? g h _ hx]
    cases y
    rfl
  have hfile := Tree.insertFile_sealed (g.node h) path hsealed
  have hdirectory := Tree.insertDirectory_sealed (g.node h) path hsealed
  refine ⟨?_, ?_⟩
  · simp [perform, hv, insertFile, edit, hfile]
  · simp [perform, hv, insertDirectory, edit, hdirectory]

end

/-- What a grove can become without an insertion that passes through a node from above. -/
inductive Later (n : Handle) : Grove → Grove → Prop
  | refl (g : Grove) : Later n g g
  | step (g g' : Grove) (c : Call) (hc : ¬ g.PassesThrough n c) (h : Later n (g.perform c).1 g') :
      Later n g g'

theorem node?_later (n : Handle) (g g' : Grove) (t : Tree) (hn : g.node? n = some t.close)
    (h : Later n g g') : g'.node? n = some t.close := by
  induction h with
  | refl g => exact hn
  | step g g' c hc _ ih => exact ih (node?_perform g n t hn c hc)

theorem node?_setNode_self (g : Grove) (n : Handle) (t u : Tree) (hn : g.node? n = some t)
    (hname : u.name = t.name) : (g.setNode n u).node? n = some u := by
  obtain ⟨whole, hwhole, hat⟩ := Option.bind_eq_some_iff.mp hn
  have hself := Tree.at?_replaceAt u n.path whole t hat hname []
  rw [List.append_nil] at hself
  simp only [node?, setNode, List.getElem?_modify, if_true, hwhole]
  exact hself

theorem node?_close_self (g : Grove) (n : Handle) (t : Tree) (hn : g.node? n = some t) :
    (g.close n).node? n = some t.close := by
  rw [close, node_of_node? g n t hn]
  exact node?_setNode_self g n t t.close hn (Tree.withSeal_name true t)

theorem not_passesThrough_root (g : Grove) (n : Handle) (hroot : n.path = []) (c : Call) :
    ¬ g.PassesThrough n c := by
  have hnone : ∀ h v, ¬ g.Passes n h v := by
    rintro h v ⟨-, hnot, -⟩
    rw [hroot] at hnot
    exact hnot List.nil_prefix
  cases c with
  | insertFile h v => exact hnone h v
  | insertDirectory h v => exact hnone h v
  | close h => exact id

/-- A closed node stays what it was when it was closed, and takes nothing in itself or below, as
long as no insertion passes through it from an open node above. None can pass through a root, so a
registered tree stays as it was registered. An insertion from an open node above heeds no seal on
its path. -/
theorem close_permanent (g : Grove) (n : Handle) (t : Tree) (hn : g.node? n = some t) :
    (∀ g', Later n (g.close n) g' →
      g'.node? n = some t.close ∧ (g'.node n).toJson = t.toJson ∧
      (∀ h v path, h.tree = n.tree → n.path <+: h.path → (g'.node? h).isSome = true →
        Tree.segmentsOf v = .ok path →
        g'.perform (.insertFile h v) = (g', .error .isSealed) ∧
          g'.perform (.insertDirectory h v) = (g', .error .isSealed)) ∧
      ∀ r s name catalog u, Registry.register r name t catalog = .ok (s, u) →
        g'.node? n = some u.tree) ∧
    (n.path = [] → ∀ g' c, ¬ PassesThrough g' n c) ∧
    ∀ (u : Tree) path, u.isSealed = false →
      (u.insertFile path).map Tree.copy = u.copy.insertFile path ∧
        (u.insertDirectory path).map Tree.copy = u.copy.insertDirectory path := by
  refine ⟨?_, fun hroot g' c => not_passesThrough_root g' n hroot c, ?_⟩
  · intro g' hlater
    have hkept := node?_later n _ g' t (node?_close_self g n t hn) hlater
    refine ⟨hkept, ?_, ?_, ?_⟩
    · rw [node_of_node? g' n _ hkept]
      exact Tree.toJson_withSeal true t
    · intro h v path htree hpath hthere hv
      exact perform_within g' n t hkept h v path htree hpath hthere hv
    · intro r s name catalog u hregister
      rw [Registry.register_tree r s name t catalog u hregister]
      exact hkept
  · intro u path hopen
    exact ⟨Tree.insertFile_copy u path hopen, Tree.insertDirectory_copy u path hopen⟩

/-- One tree with one directory in it. -/
def shared : Grove :=
  ⟨[.node "" false [.node "a" false [] ["x"]] []]⟩

def inner : Handle :=
  ⟨0, ["a"]⟩

/-- The directory stays closed while the root takes a file beside it. -/
theorem close_permanent_beside : ∃ g',
    (shared.close inner).perform (.insertFile ⟨0, []⟩ (.str "b/y")) = (g', .ok ()) ∧
    g'.node? inner = some (.node "a" true [] ["x"]) ∧
    g'.perform (.insertFile inner (.str "z")) = (g', .error .isSealed) := by
  have hbeside : ¬ (shared.close inner).PassesThrough inner (.insertFile ⟨0, []⟩ (.str "b/y")) := by
    rintro ⟨-, -, -, path, hv, hpath⟩
    have hsegments : Tree.segmentsOf (.str "b/y") = .ok ["b", "y"] := by rfl
    rw [hsegments] at hv
    cases hv
    revert hpath
    decide
  have hlater := Later.step _ _ _ hbeside (.refl _)
  obtain ⟨hkept, -, hrefused, -⟩ :=
    (close_permanent shared inner (.node "a" false [] ["x"]) rfl).1 _ hlater
  exact ⟨_, rfl, hkept, (hrefused inner (.str "z") ["z"] rfl (List.prefix_refl _) rfl rfl).1⟩

/-- From the open root a file is put into the closed directory. -/
theorem insertion_from_above : ∃ g',
    (shared.close inner).perform (.insertFile ⟨0, []⟩ (.str "a/y")) = (g', .ok ()) ∧
    ((shared.close inner).node inner).isSealed = true ∧
    (g'.node inner).toJson ≠ ((shared.close inner).node inner).toJson := by
  refine ⟨_, rfl, rfl, ?_⟩
  change (Tree.node "a" true [] ["x", "y"]).toJson ≠ (Tree.node "a" true [] ["x"]).toJson
  simp [Tree.toJson, Json.strings]

end Grove

end DocNavigation
