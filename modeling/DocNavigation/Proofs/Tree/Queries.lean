import DocNavigation.Proofs.Tree.Listings

/-!
What a tree answers about a path beside what it lists. A path is a file or a directory of a
well-formed tree just if its joined form is listed as one, nothing is listed twice, and the listings
below a place are those of the node there. Copies, and trees read from what was written, answer the
same.
-/

namespace DocNavigation.Tree

theorem mem_filePaths_iff_hasFile (t : Tree) (ht : t.WellFormed) (p : List String) :
    p ∈ t.filePaths [] ↔ t.hasFile p = true := by
  rw [mem_filePaths_iff t ht [] p]
  constructor
  · rintro ⟨q, l, rfl, hfile⟩
    exact hfile
  · intro hfile
    have hne : p ≠ [] := by
      rintro rfl
      cases hfile
    obtain ⟨q, l, rfl⟩ := exists_leaf p hne
    exact ⟨q, l, rfl, hfile⟩

theorem mem_dirPaths_iff (t : Tree) (ht : t.WellFormed) (p : List String) :
    p ∈ t.dirPaths [] ↔ p ≠ [] ∧ (t.at? p).isSome = true := by
  induction t using of_dirs generalizing p with
  | h n s ds fs ih =>
    have hwell := ((wellFormed_iff _).mp ht).2
    rw [dirPaths_node, List.mem_flatMap]
    constructor
    · rintro ⟨d, hd, hp⟩
      have hchild := (child?_eq_some_iff _ d ht d.name).mpr ⟨hd, rfl⟩
      rcases List.mem_cons.mp hp with rfl | hp
      · refine ⟨List.cons_ne_nil _ _, ?_⟩
        rw [at?_cons, hchild]
        rfl
      · obtain ⟨q, hq, rfl⟩ := List.mem_map.mp hp
        refine ⟨List.cons_ne_nil _ _, ?_⟩
        rw [at?_cons, hchild]
        exact ((ih d hd (hwell d hd) q).mp hq).2
    · rintro ⟨hne, hplace⟩
      obtain ⟨r, q, rfl⟩ := List.exists_cons_of_ne_nil hne
      obtain ⟨x, hx⟩ := Option.isSome_iff_exists.mp hplace
      obtain ⟨d, hd, hrest⟩ := (at?_cons_eq_some_iff _ x r q).mp hx
      obtain ⟨hmem, rfl⟩ := (child?_eq_some_iff _ d ht r).mp hd
      refine ⟨d, hmem, ?_⟩
      by_cases hq : q = []
      · rw [hq]
        exact List.mem_cons_self ..
      · have hbelow := (ih d hmem (hwell d hmem) q).mpr ⟨hq, by rw [hrest]; rfl⟩
        exact List.mem_cons_of_mem _ (List.mem_map_of_mem hbelow)

theorem dirPaths_nodup (t : Tree) (ht : t.WellFormed) : (t.dirPaths []).Nodup := by
  induction t using of_dirs with
  | h n s ds fs ih =>
    obtain ⟨horder, hwell⟩ := (wellFormed_iff _).mp ht
    have hdirs := (List.nodup_append.mp horder.distinct).1
    have hbelow : ∀ d : Tree, ∀ p ∈ [d.name] :: (d.dirPaths []).map (d.name :: ·),
        ∃ q, p = d.name :: q := by
      intro d p hp
      rcases List.mem_cons.mp hp with rfl | hp
      · exact ⟨[], rfl⟩
      · obtain ⟨q, -, rfl⟩ := List.mem_map.mp hp
        exact ⟨q, rfl⟩
    rw [dirPaths_node]
    refine List.nodup_flatMap.mpr ⟨fun d hd => List.nodup_cons.mpr ⟨?_, ?_⟩, ?_⟩
    · intro hmem
      obtain ⟨q, hq, heq⟩ := List.mem_map.mp hmem
      exact (dirPaths_valid d (hwell d hd) q hq).1 (List.cons.inj heq).2
    · exact (ih d hd (hwell d hd)).map fun a b hab => (List.cons.inj hab).2
    · -- what lies below two directories differs by their names
      refine (List.pairwise_map.mp hdirs).imp fun {d e} hne p hp hq => ?_
      obtain ⟨q, rfl⟩ := hbelow d p hp
      obtain ⟨r, heq⟩ := hbelow e _ hq
      exact hne (List.cons.inj heq).1

/-- No path is a file and a directory. -/
theorem at?_of_hasFile (t : Tree) (ht : t.WellFormed) (p : List String)
    (hfile : t.hasFile p = true) : t.at? p = none := by
  have hne : p ≠ [] := by
    rintro rfl
    cases hfile
  obtain ⟨q, l, rfl⟩ := exists_leaf p hne
  obtain ⟨x, hx, hl⟩ := (hasFile_snoc t q l).mp hfile
  obtain ⟨-, -, hapart⟩ :=
    List.nodup_append.mp ((wellFormed_iff x).mp (at?_wellFormed q t x ht hx)).1.distinct
  have hnone : x.child? l = none :=
    (child?_eq_none_iff l x).mpr fun hmem => hapart l hmem l hl rfl
  rw [at?_append, hx, Option.bind_some, at?_cons, hnone, Option.bind_none]

theorem segments_slashless (p : List String) (hp : ∀ s ∈ p, Name.isSegment s = true) :
    ∀ s ∈ p, '/' ∉ s.toList :=
  fun s hs => ((Name.isSegment_iff s).mp (hp s hs)).2.2.2.1

section
variable (paths : List (List String))
  (hpaths : ∀ p ∈ paths, p ≠ [] ∧ ∀ s ∈ p, Name.isSegment s = true)

/-- Distinct paths have distinct joined forms. -/
theorem joined_inj (p q : List String) (hp : p ≠ [] ∧ ∀ s ∈ p, Name.isSegment s = true)
    (hq : q ≠ [] ∧ ∀ s ∈ q, Name.isSegment s = true) (h : joined p = joined q) : p = q :=
  joined_injective p q hp.1 hq.1 (segments_slashless p hp.2) (segments_slashless q hq.2) h

include hpaths in
theorem mem_map_joined_iff (p : List String) (hp : p ≠ [] ∧ ∀ s ∈ p, Name.isSegment s = true) :
    joined p ∈ paths.map joined ↔ p ∈ paths := by
  rw [List.mem_map]
  constructor
  · rintro ⟨q, hq, heq⟩
    exact joined_inj q p (hpaths q hq) hp heq ▸ hq
  · exact fun h => ⟨p, h, rfl⟩

include hpaths in
theorem nodup_map_joined (hnodup : paths.Nodup) : (paths.map joined).Nodup :=
  hnodup.map_on fun p hp q hq => joined_inj p q (hpaths p hp) (hpaths q hq)

end

theorem joined_append (p q : List String) (hp : p ≠ []) (hq : q ≠ []) :
    joined (p ++ q) = joined p ++ "/" ++ joined q := by
  apply String.toList_injective
  simp only [joined, String.toList_append, String.toList_intercalate, List.map_append]
  exact (Text.intercalate_append '/' _ _ (by simpa using hp) (by simpa using hq)).trans
    (by simp)

/-- Below a place as texts tell it: what goes on behind the place and a slash. -/
theorem startsWith_joined_iff (p q : List String) (hp : p ≠ [] ∧ ∀ s ∈ p, Name.isSegment s = true)
    (hq : q ≠ [] ∧ ∀ s ∈ q, Name.isSegment s = true) :
    Text.startsWith (joined p ++ "/") (joined q) = true ↔ p <+: q ∧ p ≠ q := by
  rw [Text.startsWith, List.isPrefixOf_iff_prefix]
  constructor
  · rintro ⟨cs, hcs⟩
    -- cut at its slashes, the longer text has the pieces of the shorter one first
    have hcut : (Text.pieces '/' (joined q).toList) =
        Text.pieces '/' (joined p).toList ++ Text.pieces '/' cs := by
      rw [← hcs, String.toList_append, List.append_assoc]
      exact Text.pieces_append '/' _ cs
    have hsegments : q = p ++ (Text.pieces '/' cs).map String.ofList := by
      have hsplit := congrArg (List.map String.ofList) hcut
      rw [List.map_append] at hsplit
      change Text.split '/' (joined q) = Text.split '/' (joined p) ++ _ at hsplit
      rwa [split_joined q hq.1 (segments_slashless q hq.2),
        split_joined p hp.1 (segments_slashless p hp.2)] at hsplit
    obtain ⟨w, ws, hw⟩ : ∃ w ws, Text.pieces '/' cs = w :: ws := by
      rw [Text.pieces_eq_splitOn]
      exact List.exists_cons_of_ne_nil (List.splitOn_ne_nil '/' cs)
    rw [hsegments, hw]
    exact ⟨List.prefix_append _ _, by simp⟩
  · rintro ⟨⟨r, rfl⟩, hne⟩
    have hr : r ≠ [] := by
      rintro rfl
      exact hne (List.append_nil p).symm
    rw [joined_append p r hp.1 hr]
    exact ⟨(joined r).toList, String.toList_append.symm⟩

/-- The paths that go on below a place. -/
def under (place : List String) (paths : List (List String)) : List (List String) :=
  paths.filter fun p => place <+: p ∧ place ≠ p

theorem filter_startsWith_joined (place : List String) (paths : List (List String))
    (hplace : place ≠ [] ∧ ∀ s ∈ place, Name.isSegment s = true)
    (hpaths : ∀ p ∈ paths, p ≠ [] ∧ ∀ s ∈ p, Name.isSegment s = true) :
    (paths.map joined).filter (Text.startsWith (joined place ++ "/")) =
      (under place paths).map joined := by
  rw [List.filter_map, under]
  refine congrArg _ (List.filter_congr fun p hp => ?_)
  rw [Bool.eq_iff_iff, decide_eq_true_iff]
  exact startsWith_joined_iff place p hplace (hpaths p hp)

/-- A directory is met once among its siblings. -/
theorem flatMap_child {α : Type} (t c : Tree) (ht : t.WellFormed) (s : String)
    (hc : t.child? s = some c) (g : Tree → List α) :
    (t.dirs.flatMap fun d => if d.name = s then g d else []) = g c := by
  obtain ⟨hmem, rfl⟩ := (child?_eq_some_iff t c ht s).mp hc
  obtain ⟨before, after, hdirs⟩ := List.append_of_mem hmem
  have hnames := (List.nodup_append.mp ((wellFormed_iff t).mp ht).1.distinct).1
  rw [hdirs, List.map_append, List.map_cons, List.nodup_append, List.nodup_cons] at hnames
  obtain ⟨-, ⟨hafter, -⟩, hbefore⟩ := hnames
  have hnone : ∀ ds : List Tree, c.name ∉ ds.map name →
      (ds.flatMap fun d => if d.name = c.name then g d else []) = [] := by
    intro ds hds
    rw [List.flatMap_eq_nil_iff]
    intro d hd
    have hother : d.name ≠ c.name := fun hname => hds (hname ▸ List.mem_map_of_mem hd)
    exact if_neg hother
  rw [hdirs, List.flatMap_append, List.flatMap_cons, if_pos rfl, hnone after hafter,
    hnone before fun hmem => hbefore c.name hmem c.name (List.mem_cons_self ..) rfl,
    List.nil_append, List.append_nil]

/-- A listing goes node by node: names of the node's own first, then for each directory what stands
for itself and what it lists, behind its name. -/
structure Lists (listing : Tree → List (List String)) (own : Tree → List String)
    (head : Tree → List (List String)) : Prop where
  node : ∀ t : Tree, listing t = (own t).map ([·]) ++
    t.dirs.flatMap fun d => head d ++ (listing d).map (d.name :: ·)
  head : ∀ d, ∀ p ∈ head d, p = [d.name]

theorem lists_filePaths : Lists (filePaths []) files fun _ => [] := by
  refine ⟨fun t => ?_, by simp⟩
  obtain ⟨n, sealing, ds, fs⟩ := t
  exact filePaths_node n sealing ds fs

theorem lists_dirPaths : Lists (dirPaths []) (fun _ => []) fun d => [[d.name]] := by
  refine ⟨fun t => ?_, by simp⟩
  obtain ⟨n, sealing, ds, fs⟩ := t
  exact dirPaths_node n sealing ds fs

section
variable (listing : Tree → List (List String)) (own : Tree → List String)
  (head : Tree → List (List String)) (h : Lists listing own head)
include h

theorem under_nil (t : Tree) : under [] (listing t) = listing t := by
  rw [under, List.filter_eq_self]
  intro p hp
  have hne : p ≠ [] := by
    rintro rfl
    rw [h.node, List.mem_append] at hp
    simp only [List.mem_map, List.mem_flatMap, List.mem_append, List.cons_ne_nil, and_false,
      exists_false, or_false, false_or] at hp
    obtain ⟨d, -, hd⟩ := hp
    exact List.cons_ne_nil _ _ (h.head d [] hd).symm
  exact decide_eq_true ⟨List.nil_prefix, hne.symm⟩

/-- Of what a node lists, that which goes on below a directory is what the directory lists. -/
theorem under_cons (t c : Tree) (ht : t.WellFormed) (s : String) (hc : t.child? s = some c)
    (rest : List String) :
    under (s :: rest) (listing t) = (under rest (listing c)).map (s :: ·) := by
  have hsingle : ∀ r, ¬ (s :: rest <+: [r] ∧ s :: rest ≠ [r]) := by
    rintro r ⟨hstart, hne⟩
    exact hne (hstart.eq_of_length_le (by simp))
  have hown : ((own t).map ([·])).filter (fun p => s :: rest <+: p ∧ s :: rest ≠ p) = [] := by
    rw [List.filter_eq_nil_iff, List.forall_mem_map]
    exact fun r _ h => hsingle r (of_decide_eq_true h)
  have hblock : ∀ d : Tree, (head d ++ (listing d).map (d.name :: ·)).filter
      (fun p => s :: rest <+: p ∧ s :: rest ≠ p) =
        if d.name = s then (under rest (listing d)).map (s :: ·) else [] := by
    intro d
    have hheads : (head d).filter (fun p => s :: rest <+: p ∧ s :: rest ≠ p) = [] := by
      rw [List.filter_eq_nil_iff]
      intro p hp hunder
      rw [h.head d p hp] at hunder
      exact hsingle d.name (of_decide_eq_true hunder)
    rw [List.filter_append, hheads, List.nil_append, List.filter_map]
    split
    case isTrue hname =>
      rw [under, hname]
      exact congrArg _ (List.filter_congr fun p _ => by simp [List.cons_prefix_cons])
    case isFalse hname =>
      rw [List.map_eq_nil_iff, List.filter_eq_nil_iff]
      intro p _ hunder
      exact hname (List.cons_prefix_cons.mp (of_decide_eq_true hunder).1).1.symm
  rw [h.node, under, List.filter_append, hown, List.nil_append, List.filter_flatMap,
    List.flatMap_congr fun d _ => hblock d]
  exact flatMap_child t c ht s hc _

/-- What is listed below a place is what the node there lists, in the same order. -/
theorem under_place (place : List String) (t u : Tree) (ht : t.WellFormed)
    (hu : t.at? place = some u) : under place (listing t) = (listing u).map (place ++ ·) := by
  induction place generalizing t with
  | nil =>
    cases hu
    rw [under_nil listing own head h]
    exact (List.map_id _).symm
  | cons s rest ih =>
    obtain ⟨c, hc, hrest⟩ := (at?_cons_eq_some_iff t u s rest).mp hu
    rw [under_cons listing own head h t c ht s hc rest,
      ih c (child?_wellFormed t s c ht hc).1 hrest, List.map_map]
    rfl

end

/-- The joined paths of a tree below a place are the joined paths of the node there, each behind the
place. -/
theorem filter_map_joined (place : List String) (listing inner : List (List String))
    (hplace : place ≠ [] ∧ ∀ s ∈ place, Name.isSegment s = true)
    (hlisting : ∀ p ∈ listing, p ≠ [] ∧ ∀ s ∈ p, Name.isSegment s = true)
    (hinner : ∀ p ∈ inner, p ≠ []) (h : under place listing = inner.map (place ++ ·)) :
    (listing.map joined).filter (Text.startsWith (joined place ++ "/")) =
      (inner.map joined).map (joined place ++ "/" ++ ·) := by
  rw [filter_startsWith_joined place listing hplace hlisting, h, List.map_map, List.map_map]
  exact List.map_congr_left fun p hp => joined_append place p hplace.1 (hinner p hp)

mutual

theorem filePaths_withSeal (sealing : Bool) (above : List String) :
    (t : Tree) → (t.withSeal sealing).filePaths above = t.filePaths above
  | .node _ _ ds fs => by
    rw [withSeal, filePaths, filePaths, filePathsAll_withSealAll sealing above ds]

theorem filePathsAll_withSealAll (sealing : Bool) (above : List String) :
    (ts : List Tree) → filePathsAll above (withSealAll sealing ts) = filePathsAll above ts
  | [] => rfl
  | t :: ts => by
    rw [withSealAll, filePathsAll, filePathsAll, withSeal_name,
      filePaths_withSeal sealing (above ++ [t.name]) t, filePathsAll_withSealAll sealing above ts]

end

mutual

theorem dirPaths_withSeal (sealing : Bool) (above : List String) :
    (t : Tree) → (t.withSeal sealing).dirPaths above = t.dirPaths above
  | .node _ _ ds _ => by
    rw [withSeal, dirPaths, dirPaths, dirPathsAll_withSealAll sealing above ds]

theorem dirPathsAll_withSealAll (sealing : Bool) (above : List String) :
    (ts : List Tree) → dirPathsAll above (withSealAll sealing ts) = dirPathsAll above ts
  | [] => rfl
  | t :: ts => by
    rw [withSealAll, dirPathsAll, dirPathsAll, withSeal_name,
      dirPaths_withSeal sealing (above ++ [t.name]) t, dirPathsAll_withSealAll sealing above ts]

end

/-- Two trees that answer every question alike, seals aside. -/
structure SameAnswers (t u : Tree) : Prop where
  hasFile : ∀ p, t.hasFile p = u.hasFile p
  found : ∀ p, (t.at? p).map copy = (u.at? p).map copy
  paths : t.paths = u.paths
  directories : t.directories = u.directories
  fileCount : t.fileCount = u.fileCount

theorem copy_copy (t : Tree) : t.copy.copy = t.copy :=
  withSeal_withSeal false false t

theorem sameAnswers_copy (t : Tree) : SameAnswers t.copy t := by
  have hfiles : t.copy.filePaths [] = t.filePaths [] := filePaths_withSeal false [] t
  refine ⟨fun p => ?_, fun p => ?_, ?_, ?_, ?_⟩
  · rw [hasFile, hasFile, copy, at?_withSeal]
    cases p.getLast? with
    | none => rfl
    | some leaf =>
      cases t.at? p.dropLast with
      | none => rfl
      | some x => simp [files_withSeal]
  · rw [copy, at?_withSeal, Option.map_map]
    exact congrArg (Option.map · (t.at? p)) (funext copy_copy)
  · rw [paths, paths, hfiles]
  · rw [directories, directories, copy, dirPaths_withSeal]
  · rw [← length_filePaths [] t.copy, hfiles, length_filePaths]

/-- What a tree answers about a path is what it lists: the path is a file or a directory just if its
joined form is listed as one, and the listings below a directory are the directory's own behind its
path. Nothing is listed twice. A copy answers the same, and so does the tree that is read from what
was written. -/
theorem queries_agree (t : Tree) (ht : t.Built) :
    (∀ v path, segmentsOf v = .ok path →
      (t.hasFile path = true ↔ joined path ∈ t.paths) ∧
      ((t.at? path).isSome = true ↔ joined path ∈ t.directories) ∧
      ∀ u, t.at? path = some u →
        t.paths.filter (Text.startsWith (joined path ++ "/")) =
          u.paths.map (joined path ++ "/" ++ ·) ∧
        t.directories.filter (Text.startsWith (joined path ++ "/")) =
          u.directories.map (joined path ++ "/" ++ ·)) ∧
    (t.paths ++ t.directories).Nodup ∧ t.fileCount = t.paths.length ∧
    SameAnswers t.copy t ∧ ∃ r, ofJson t.toJson = .ok r ∧ SameAnswers r t := by
  have hwell := ht.wellFormed
  have hfiles := filePaths_valid t hwell
  have hdirs := dirPaths_valid t hwell
  refine ⟨fun v path hv => ?_, ?_, ?_, sameAnswers_copy t, t.copy, ofJson_toJson t hwell,
    sameAnswers_copy t⟩
  · have hpath := segmentsOf_segments v path hv
    refine ⟨?_, ?_, fun u hu => ?_⟩
    · rw [paths, mem_map_joined_iff _ hfiles path hpath, mem_filePaths_iff_hasFile t hwell]
    · rw [directories, mem_map_joined_iff _ hdirs path hpath, mem_dirPaths_iff t hwell]
      exact (and_iff_right hpath.1).symm
    · have huwell := at?_wellFormed path t u hwell hu
      exact ⟨filter_map_joined path _ _ hpath hfiles (fun p hp => (filePaths_valid u huwell p hp).1)
          (under_place _ _ _ lists_filePaths path t u hwell hu),
        filter_map_joined path _ _ hpath hdirs (fun p hp => (dirPaths_valid u huwell p hp).1)
          (under_place _ _ _ lists_dirPaths path t u hwell hu)⟩
  · have hall : ((t.filePaths [] ++ t.dirPaths []).map joined).Nodup := by
      apply nodup_map_joined _ (List.forall_mem_append.mpr ⟨hfiles, hdirs⟩)
      refine List.nodup_append.mpr
        ⟨filePaths_nodup t hwell [], dirPaths_nodup t hwell, ?_⟩
      rintro p hp q hq rfl
      rw [mem_filePaths_iff_hasFile t hwell] at hp
      rw [mem_dirPaths_iff t hwell, at?_of_hasFile t hwell p hp] at hq
      exact absurd hq.2 Bool.false_ne_true
    rwa [List.map_append] at hall
  · rw [paths, List.length_map, length_filePaths]

/-- The sealed directory `b` with a directory of its own, asked for by a text. -/
theorem queries_agree_attic : attic.Built ∧ segmentsOf (.str "b/a/y") = .ok ["b", "a", "y"] ∧
    segmentsOf (.arr [.str "b", .str "a"]) = .ok ["b", "a"] ∧
    attic.hasFile ["b", "a", "y"] = true ∧ "b/a/y" ∈ attic.paths ∧ "b/a" ∈ attic.directories ∧
    attic.paths.filter (Text.startsWith "b/a/") = ["b/a/y", "b/a/x"] := by
  have hfile : segmentsOf (.str "b/a/y") = .ok ["b", "a", "y"] := by rfl
  have hdir : segmentsOf (.arr [.str "b", .str "a"]) = .ok ["b", "a"] := by rfl
  have hasked := (queries_agree attic attic_built).1
  obtain ⟨hlisted, -, -⟩ := hasked _ _ hfile
  obtain ⟨-, hfound, hinner⟩ := hasked _ _ hdir
  exact ⟨attic_built, hfile, hdir, by decide +kernel, hlisted.mp (by decide +kernel),
    hfound.mp (by decide +kernel), (hinner _ rfl).1⟩

end DocNavigation.Tree
