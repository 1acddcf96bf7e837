import DocNavigation.Proofs.Tree.Queries

/-!
Drawings of trees. A drawing has a line for every directory and every file, and it determines what
is drawn: names may look like connectors or margins, but the first character of a line tells an
entry from what lies deeper, and only directories end in a slash.
-/

namespace DocNavigation.Tree

theorem connector_append_inj (a b : Bool) (s r : String) (h : connector a ++ s = connector b ++ r) :
    a = b ∧ s = r := by
  have hchars := congrArg String.toList h
  rw [String.toList_append, String.toList_append] at hchars
  cases a <;> cases b <;> simp [connector, String.toList_inj] at hchars <;> simp [hchars]

/-- The line begins with a connector. -/
def isEntry (line : String) : Bool :=
  line.toList.head? = some '├' || line.toList.head? = some '└'

theorem isEntry_connector (last : Bool) (s : String) : isEntry (connector last ++ s) = true := by
  cases last <;> simp [isEntry, connector]

theorem isEntry_indent (last : Bool) (s : String) : isEntry (indent last ++ s) = false := by
  cases last <;> simp [isEntry, indent]

theorem indent_append_injective (last : Bool) : Function.Injective (indent last ++ ·) := by
  intro s r h
  have hchars := congrArg String.toList h
  simp only [String.toList_append] at hchars
  exact String.toList_injective (List.append_cancel_left hchars)

theorem fileLines_margin (a b : String) (fs : List String) :
    fileLines (a ++ b) fs = (fileLines b fs).map (a ++ ·) := by
  induction fs with
  | nil => rfl
  | cons f fs ih => simp [fileLines, ih, String.append_assoc]

mutual

/-- Moving a drawing to the right moves each of its lines. -/
theorem drawn_margin (a b : String) : (t : Tree) → drawn (a ++ b) t = (drawn b t).map (a ++ ·)
  | .node _ _ ds fs => drawnAll_margin a b fs ds

theorem drawnAll_margin (a b : String) (fs : List String) :
    (ts : List Tree) → drawnAll (a ++ b) ts fs = (drawnAll b ts fs).map (a ++ ·)
  | [] => fileLines_margin a b fs
  | t :: ts => by
    simp [drawnAll, String.append_assoc, drawn_margin a _ t, drawnAll_margin a b fs ts]

end

/-- A directory, what is below it, and what comes after it. -/
theorem drawnAll_cons (t : Tree) (ts : List Tree) (fs : List String) :
    drawnAll "" (t :: ts) fs = (connector (ts.isEmpty && fs.isEmpty) ++ (t.name ++ "/")) ::
      ((drawn "" t).map (indent (ts.isEmpty && fs.isEmpty) ++ ·) ++ drawnAll "" ts fs) := by
  have hbelow := drawn_margin (indent (ts.isEmpty && fs.isEmpty)) "" t
  rw [String.append_empty] at hbelow
  rw [drawnAll, String.empty_append, String.empty_append, hbelow, String.append_assoc]
  rfl

theorem drawnAll_nil_cons (f : String) (fs : List String) :
    drawnAll "" [] (f :: fs) = (connector fs.isEmpty ++ f) :: drawnAll "" [] fs := by
  rw [drawnAll, fileLines, String.empty_append]
  rfl

theorem head_drawnAll (ts : List Tree) (fs : List String) :
    ∀ line ∈ (drawnAll "" ts fs).head?, isEntry line = true := by
  cases ts with
  | cons t ts =>
    rw [drawnAll_cons]
    rintro line ⟨⟩
    exact isEntry_connector _ _
  | nil =>
    cases fs with
    | nil => nofun
    | cons f fs =>
      rw [drawnAll_nil_cons]
      rintro line ⟨⟩
      exact isEntry_connector _ _

/-- Two parts of which the second starts where a property begins to hold. -/
theorem append_inj_of_heads {α : Type} (P : α → Bool) (xs xs' ys ys' : List α)
    (hxs : ∀ x ∈ xs, P x = false) (hxs' : ∀ x ∈ xs', P x = false)
    (hys : ∀ y ∈ ys.head?, P y = true) (hys' : ∀ y ∈ ys'.head?, P y = true)
    (h : xs ++ ys = xs' ++ ys') : xs = xs' ∧ ys = ys' := by
  have hfront : ∀ l r : List α, (∀ x ∈ l, P x = false) → (∀ y ∈ r.head?, P y = true) →
      (l ++ r).takeWhile (! P ·) = l := by
    intro l r hl hr
    rw [List.takeWhile_append_of_pos (by simpa using hl)]
    cases r with
    | nil => simp
    | cons y r => simp [hr y rfl]
  have hsame : xs = xs' := by rw [← hfront xs ys hxs hys, h, hfront xs' ys' hxs' hys']
  subst hsame
  exact ⟨rfl, List.append_cancel_left h⟩

/-- No file is drawn as a directory. -/
theorem fileLine_ne (f n : String) (hf : '/' ∉ f.toList) (a b : Bool) :
    connector a ++ f ≠ connector b ++ (n ++ "/") := by
  intro h
  obtain ⟨-, rfl⟩ := connector_append_inj a b _ _ h
  simp at hf

/-- The same entries below two nodes, seals aside. -/
def SameBelow (t u : Tree) : Prop :=
  t.dirs.map copy = u.dirs.map copy ∧ t.files = u.files

theorem copy_eq_of_sameBelow (t u : Tree) (hname : t.name = u.name) (h : SameBelow t u) :
    t.copy = u.copy := by
  obtain ⟨n, s, ds, fs⟩ := t
  obtain ⟨m, r, es, gs⟩ := u
  obtain rfl : n = m := hname
  obtain ⟨hdirs, rfl⟩ : ds.map copy = es.map copy ∧ fs = gs := h
  rw [copy_node, copy_node, hdirs]

theorem drawnAll_files_inj (fs gs : List String) (h : drawnAll "" [] fs = drawnAll "" [] gs) :
    fs = gs := by
  induction fs generalizing gs with
  | nil =>
    cases gs with
    | nil => rfl
    | cons g gs =>
      rw [drawnAll_nil_cons] at h
      cases h
  | cons f fs ih =>
    cases gs with
    | nil =>
      rw [drawnAll_nil_cons] at h
      cases h
    | cons g gs =>
      rw [drawnAll_nil_cons, drawnAll_nil_cons] at h
      obtain ⟨hline, hrest⟩ := List.cons.inj h
      rw [(connector_append_inj _ _ _ _ hline).2, ih gs hrest]

/-- Files are not drawn like an entry that has directories. -/
theorem drawnAll_files_ne (fs gs : List String) (hfs : ∀ f ∈ fs, '/' ∉ f.toList) (e : Tree)
    (es : List Tree) : drawnAll "" [] fs ≠ drawnAll "" (e :: es) gs := by
  intro h
  cases fs with
  | nil =>
    rw [drawnAll_cons] at h
    cases h
  | cons f fs =>
    rw [drawnAll_nil_cons, drawnAll_cons] at h
    exact fileLine_ne f e.name (hfs f (List.mem_cons_self ..)) _ _ (List.cons.inj h).1

/-- The entries of a node are determined by its drawing if each of its directories is. -/
theorem drawnAll_inj (ds : List Tree)
    (hds : ∀ d ∈ ds, ∀ e : Tree, e.WellFormed → drawn "" d = drawn "" e → SameBelow d e)
    (es : List Tree) (fs gs : List String) (hes : ∀ e ∈ es, e.WellFormed)
    (hfs : ∀ f ∈ fs, '/' ∉ f.toList) (hgs : ∀ g ∈ gs, '/' ∉ g.toList)
    (h : drawnAll "" ds fs = drawnAll "" es gs) : ds.map copy = es.map copy ∧ fs = gs := by
  induction ds generalizing es with
  | nil =>
    cases es with
    | nil => exact ⟨rfl, drawnAll_files_inj fs gs h⟩
    | cons e es => exact absurd h (drawnAll_files_ne fs gs hfs e es)
  | cons d ds ih =>
    cases es with
    | nil => exact absurd h.symm (drawnAll_files_ne gs fs hgs d ds)
    | cons e es =>
      rw [List.forall_mem_cons] at hds hes
      rw [drawnAll_cons, drawnAll_cons] at h
      obtain ⟨hline, hlines⟩ := List.cons.inj h
      obtain ⟨hlast, hname⟩ := connector_append_inj _ _ _ _ hline
      rw [hlast] at hlines
      -- what lies below the directory is indented, and the next entry is not
      obtain ⟨hbelow, hrest⟩ := append_inj_of_heads isEntry _ _ _ _
        (List.forall_mem_map.mpr fun l _ => isEntry_indent _ l)
        (List.forall_mem_map.mpr fun l _ => isEntry_indent _ l)
        (head_drawnAll ds fs) (head_drawnAll es gs) hlines
      have hsame := hds.1 e hes.1 ((indent_append_injective _).list_map hbelow)
      have hnames : d.name = e.name := by
        have hchars := congrArg String.toList hname
        simp only [String.toList_append] at hchars
        exact String.toList_injective (List.append_cancel_right hchars)
      obtain ⟨hdirs, hfiles⟩ := ih hds.2 es hes.2 hrest
      rw [List.map_cons, List.map_cons, copy_eq_of_sameBelow d e hnames hsame, hdirs]
      exact ⟨rfl, hfiles⟩

theorem drawn_inj (t u : Tree) (ht : t.WellFormed) (hu : u.WellFormed)
    (h : drawn "" t = drawn "" u) : SameBelow t u := by
  induction t using of_dirs generalizing u with
  | h n s ds fs ih =>
    obtain ⟨m, r, es, gs⟩ := u
    obtain ⟨htorder, htwell⟩ := (wellFormed_iff _).mp ht
    obtain ⟨huorder, huwell⟩ := (wellFormed_iff _).mp hu
    exact drawnAll_inj ds (fun d hd e he => ih d hd e (htwell d hd) he) es fs gs huwell
      (segments_slashless fs htorder.fileNames) (segments_slashless gs huorder.fileNames) h

mutual

theorem drawn_withSeal (sealing : Bool) (margin : String) :
    (t : Tree) → drawn margin (t.withSeal sealing) = drawn margin t
  | .node _ _ ds fs => drawnAll_withSealAll sealing margin fs ds

theorem drawnAll_withSealAll (sealing : Bool) (margin : String) (fs : List String) :
    (ts : List Tree) → drawnAll margin (withSealAll sealing ts) fs = drawnAll margin ts fs
  | [] => rfl
  | t :: ts => by
    have hlast : (withSealAll sealing ts).isEmpty = ts.isEmpty := by
      cases ts <;> rfl
    rw [withSealAll, drawnAll, drawnAll, withSeal_name, hlast, drawn_withSeal sealing _ t,
      drawnAll_withSealAll sealing margin fs ts]

end

theorem drawn_of_sameBelow (t u : Tree) (h : SameBelow t u) (margin : String) :
    drawn margin t = drawn margin u := by
  rw [← drawn_withSeal false margin t, ← drawn_withSeal false margin u]
  obtain ⟨n, s, ds, fs⟩ := t
  obtain ⟨m, r, es, gs⟩ := u
  obtain ⟨hdirs, rfl⟩ : ds.map copy = es.map copy ∧ fs = gs := h
  change drawn margin (node n s ds fs).copy = drawn margin (node m r es fs).copy
  rw [copy_node, copy_node, hdirs, drawn, drawn]

theorem length_fileLines (margin : String) (fs : List String) :
    (fileLines margin fs).length = fs.length := by
  induction fs with
  | nil => rfl
  | cons f fs ih => rw [fileLines, List.length_cons, ih, List.length_cons]

mutual

/-- A line for every directory and one for every file. -/
theorem length_drawn (margin : String) (above : List String) :
    (t : Tree) → (drawn margin t).length = (t.dirPaths above).length + t.fileCount
  | .node _ _ ds fs => by
    rw [drawn, dirPaths, fileCount, length_drawnAll margin above fs ds]
    omega

theorem length_drawnAll (margin : String) (above : List String) (fs : List String) :
    (ts : List Tree) → (drawnAll margin ts fs).length =
      (dirPathsAll above ts).length + fileCountAll ts + fs.length
  | [] => by simp [drawnAll, dirPathsAll, fileCountAll, length_fileLines]
  | t :: ts => by
    rw [drawnAll, dirPathsAll, fileCountAll, List.length_append, List.length_append,
      List.length_cons, List.length_cons, length_drawn _ (above ++ [t.name]) t,
      length_drawnAll margin above fs ts]
    omega

end

/-- Two drawings, both with a label or both without one, are the same lines exactly if the labels
are equal and the trees have the same directories and files in the same order at every node, the
names of the roots aside. Without a label there is a line for every directory and every file. -/
theorem render_determines (t u : Tree) (ht : t.Built) (hu : u.Built) (a b : Option String)
    (hlabels : a.isSome = b.isSome) :
    (t.render a = u.render b ↔
      a = b ∧ t.dirs.map copy = u.dirs.map copy ∧ t.files = u.files) ∧
    (t.render none).length = t.directories.length + t.fileCount := by
  refine ⟨⟨fun h => ?_, ?_⟩, ?_⟩
  · have hlength : a.toList.length = b.toList.length := by
      cases a <;> cases b <;> simp_all
    obtain ⟨hlabel, hdrawn⟩ := List.append_inj h hlength
    refine ⟨?_, drawn_inj t u ht.wellFormed hu.wellFormed hdrawn⟩
    cases a <;> cases b <;> simp_all
  · rintro ⟨rfl, hsame⟩
    rw [render, render, drawn_of_sameBelow t u hsame]
  · rw [render, directories, List.length_map]
    exact length_drawn "" [] t

/-- Names that look like what stands around them. -/
def ruled : Tree :=
  .node "" false
    [.node "│   " false [.node "└── x" false [] []] ["x"], .node "a\n├── b" false [] []]
    ["    ", "└── a"]

theorem ruled_built : ruled.Built :=
  .ofJson ruled.toJson ruled (by rfl)

theorem render_determines_ruled : ruled.Built ∧ ruled.close.Built ∧
    ruled.render (some "│") = ruled.close.render (some "│") ∧
    ruled.dirs.map copy = ruled.close.dirs.map copy ∧
    ruled.render none = ["├── │   /", "│   ├── └── x/", "│   └── x", "├── a\n├── b/", "├──     ",
      "└── └── a"] ∧
    (ruled.render none).length = ruled.directories.length + ruled.fileCount := by
  have hdrawn : ruled.render (some "│") = ruled.close.render (some "│") := by decide +kernel
  have hboth := render_determines ruled ruled.close ruled_built (ruled_built.close _) (some "│")
    (some "│") rfl
  exact ⟨ruled_built, ruled_built.close _, hdrawn, (hboth.1.mp hdrawn).2.1, by decide +kernel,
    hboth.2⟩

end DocNavigation.Tree
