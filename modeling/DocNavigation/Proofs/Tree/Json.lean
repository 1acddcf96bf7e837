import DocNavigation.Proofs.Named
import DocNavigation.Proofs.Tree.WellFormed
import DocNavigation.Tree.Json

/-!
Which values spell trees. Reading gives a tree exactly for those, every tree that was read is
well-formed, and a well-formed tree is spelled by the value written for it. A handle may reach any node
of a tree, so an edit can start anywhere in it; every tree that the operations can build is well-formed.
-/

namespace DocNavigation.Tree

/-- The value is an object whose directories and files, none of them named twice, spell the tree.
Only a root may have a name that is no segment. -/
inductive Spells : (root : Bool) → Json → Tree → Prop
  | node (root : Bool) (fields : List (String × Json)) (name : String) (dirs : List Json)
      (files : List String) (ts : List Tree)
      (hname : (Json.getKey? fields "name").getD (.str "") = .str name)
      (hdirs : (Json.getKey? fields "dirs").getD (.arr []) = .arr dirs)
      (hfiles : (Json.getKey? fields "files").getD (.arr []) = .arr (files.map .str))
      (hroot : root = false → Name.isSegment name = true)
      (hlength : dirs.length = ts.length)
      (hall : ∀ p ∈ dirs.zip ts, Spells false p.1 p.2)
      (hsegments : ∀ f ∈ files, Name.isSegment f = true)
      (hdistinct : (ts.map Tree.name ++ files).Nodup) :
      Spells root (.obj fields) (.node name false ts files)

theorem nodeFields_eq_ok_iff (v : Json) (name : String) (dirs files : List Json) :
    nodeFields v = .ok (name, dirs, files) ↔ ∃ fields, v = .obj fields ∧
      (Json.getKey? fields "name").getD (.str "") = .str name ∧
      (Json.getKey? fields "dirs").getD (.arr []) = .arr dirs ∧
      (Json.getKey? fields "files").getD (.arr []) = .arr files := by
  constructor
  · intro h
    unfold nodeFields at h
    split at h
    case h_1 fields =>
      dsimp only at h
      split at h
      case h_1 hname hdirs hfiles =>
        cases h
        exact ⟨fields, rfl, hname, hdirs, hfiles⟩
      case h_2 => cases h
    case h_2 => cases h
  · rintro ⟨fields, rfl, hname, hdirs, hfiles⟩
    simp [nodeFields, hname, hdirs, hfiles]

theorem checkNodeName_eq_ok_iff (root : Bool) (name : String) :
    checkNodeName root name = .ok () ↔ (root = false → Name.isSegment name = true) := by
  cases root with
  | true => simp [checkNodeName]
  | false =>
    by_cases h : Name.isSegment name = true
    · simp [checkNodeName, Name.check, h]
    · simp [checkNodeName, Name.check, h]

/-- Reads values one by one and refuses a key that was met before. -/
def readDistinct {α : Type} (read : Json → Except Defect α) (key : α → String) (node : String) :
    List Json → (taken : List String) → Except Defect (List α)
  | [], _ => .ok []
  | v :: vs, taken =>
    match read v with
    | .error e => .error e
    | .ok a =>
      if taken.contains (key a) then .error (.repeatedInNode (key a) node)
      else (readDistinct read key node vs (key a :: taken)).map (a :: ·)

theorem checkDirs_eq (read : Json → Except Defect Tree) (node : String) (vs : List Json)
    (taken : List String) : checkDirs read node vs taken = readDistinct read name node vs taken := by
  induction vs generalizing taken with
  | nil => rfl
  | cons v vs ih =>
    simp only [checkDirs, readDistinct, ih]
    cases read v <;> rfl

def readName (v : Json) : Except Defect String :=
  (Name.check "tree" v).mapError .name

theorem checkFiles_eq (node : String) (vs : List Json) (taken : List String) :
    checkFiles node vs taken = readDistinct readName id node vs taken := by
  induction vs generalizing taken with
  | nil => rfl
  | cons v vs ih =>
    rw [checkFiles, readDistinct, readName]
    cases Name.check "tree" v with
    | error e => rfl
    | ok f => simp [Except.mapError, ih]

theorem readName_eq_ok_iff (v : Json) (f : String) :
    readName v = .ok f ↔ v = .str f ∧ Name.isSegment f = true := by
  rw [readName, Result.mapError_eq_ok_iff]
  constructor
  · exact Name.isSegment_of_check "tree" v f
  · rintro ⟨rfl, hf⟩
    exact Name.check_str "tree" f hf

theorem readDistinct_eq_ok_iff {α : Type} (read : Json → Except Defect α) (key : α → String)
    (node : String) (vs : List Json) (taken : List String) (as : List α) :
    readDistinct read key node vs taken = .ok as ↔
      List.Forall₂ (fun v a => read v = .ok a) vs as ∧ (as.map key).Nodup ∧
      ∀ a ∈ as, key a ∉ taken := by
  induction vs generalizing taken as with
  | nil => cases as <;> simp [readDistinct]
  | cons v vs ih =>
    rw [readDistinct]
    cases hv : read v with
    | error e =>
      refine ⟨nofun, ?_⟩
      rintro ⟨_ | ⟨ha, -⟩, -⟩
      rw [hv] at ha
      cases ha
    | ok a =>
      dsimp only
      split
      case isTrue htaken =>
        refine ⟨nofun, ?_⟩
        rintro ⟨_ | ⟨hb, -⟩, -, hfree⟩
        rw [hv] at hb
        cases hb
        exact absurd (List.contains_iff_mem.mp htaken) (hfree a (List.mem_cons_self ..))
      case isFalse htaken =>
        rw [List.contains_iff_mem] at htaken
        -- the rest is read with this key among those taken
        have hnew := fun as => Named.new_cons_iff key a as taken (key a :: taken) (by simp [or_comm])
        rw [Result.map_eq_ok_iff]
        constructor
        · rintro ⟨as, has, rfl⟩
          obtain ⟨hall, hrest⟩ := (ih _ _).mp has
          exact ⟨.cons hv hall, (hnew as).mpr ⟨htaken, hrest⟩⟩
        · rintro ⟨_ | ⟨hb, hall⟩, hfree⟩
          rename_i as
          rw [hv] at hb
          cases hb
          obtain ⟨-, hrest⟩ := (hnew as).mp hfree
          exact ⟨as, (ih _ _).mpr ⟨hall, hrest⟩, rfl⟩

theorem forall₂_readName_iff (vs : List Json) (files : List String) :
    List.Forall₂ (fun v f => readName v = .ok f) vs files ↔
      vs = files.map .str ∧ ∀ f ∈ files, Name.isSegment f = true := by
  induction vs generalizing files with
  | nil => cases files <;> simp
  | cons v vs ih =>
    cases files with
    | nil => simp
    | cons f files =>
      rw [List.forall₂_cons, ih, readName_eq_ok_iff, List.map_cons, List.cons.injEq,
        List.forall_mem_cons]
      tauto

theorem spells_of_ofJsonBelow (fuel : Nat) (root : Bool) (v : Json) (t : Tree)
    (h : ofJsonBelow fuel root v = .ok t) : Spells root v t := by
  induction fuel generalizing root v t with
  | zero => cases h
  | succ fuel ih =>
    rw [ofJsonBelow] at h
    split at h
    case h_1 => cases h
    case h_2 name dirs files hfields =>
      obtain ⟨fields, rfl, hname, hdirs, hfiles⟩ := (nodeFields_eq_ok_iff _ _ _ _).mp hfields
      split at h
      case h_1 => cases h
      case h_2 hcheck =>
        rw [checkDirs_eq] at h
        split at h
        case h_1 => cases h
        case h_2 ts hts =>
          rw [checkFiles_eq] at h
          split at h
          case h_1 => cases h
          case h_2 fs hfs =>
            cases h
            obtain ⟨hall, htsNodup, -⟩ := (readDistinct_eq_ok_iff _ _ _ _ _ _).mp hts
            obtain ⟨hread, hfsNodup, hfree⟩ := (readDistinct_eq_ok_iff _ _ _ _ _ _).mp hfs
            obtain ⟨rfl, hsegments⟩ := (forall₂_readName_iff _ _).mp hread
            rw [List.forall₂_iff_zip] at hall
            rw [List.map_id] at hfsNodup
            refine .node root fields name dirs fs ts hname hdirs hfiles
              ((checkNodeName_eq_ok_iff root name).mp hcheck) hall.1 ?_ hsegments ?_
            · intro p hp
              exact ih false p.1 p.2 (hall.2 hp)
            · refine List.nodup_append.mpr ⟨htsNodup, hfsNodup, ?_⟩
              rintro a ha b hb rfl
              exact hfree a hb ha

theorem depth_of_getKey? (fields : List (String × Json)) (key : String) (v : Json)
    (h : Json.getKey? fields key = some v) : v.depth ≤ Json.depthFields fields := by
  induction fields with
  | nil => cases h
  | cons f fields ih =>
    obtain ⟨k, w⟩ := f
    rw [Json.depthFields]
    by_cases hk : k = key
    · simp only [Json.getKey?, List.find?_cons, hk, decide_true, Option.map_some,
        Option.some.injEq] at h
      subst h
      exact Nat.le_max_left _ _
    · simp only [Json.getKey?, List.find?_cons, hk, decide_false] at h
      exact Nat.le_trans (ih h) (Nat.le_max_right _ _)

theorem depth_of_mem (items : List Json) (v : Json) (h : v ∈ items) :
    v.depth ≤ Json.depthItems items := by
  induction items with
  | nil => cases h
  | cons w items ih =>
    rw [Json.depthItems]
    rcases List.mem_cons.mp h with rfl | h
    · exact Nat.le_max_left _ _
    · exact Nat.le_trans (ih h) (Nat.le_max_right _ _)

/-- Directories lie deeper by the list that holds them and by the object around it. -/
theorem depth_of_dirs (fields : List (String × Json)) (dirs : List Json) (v : Json)
    (h : (Json.getKey? fields "dirs").getD (.arr []) = .arr dirs) (hv : v ∈ dirs) :
    v.depth < (Json.obj fields).depth := by
  cases hget : Json.getKey? fields "dirs" with
  | none =>
    rw [hget] at h
    cases h
    cases hv
  | some w =>
    rw [hget] at h
    cases h
    have hfields := depth_of_getKey? fields "dirs" _ hget
    have hitems := depth_of_mem dirs v hv
    simp only [Json.depth] at hfields ⊢
    omega

theorem ofJsonBelow_of_spells (root : Bool) (v : Json) (t : Tree) (h : Spells root v t)
    (fuel : Nat) (hfuel : v.depth < fuel) : ofJsonBelow fuel root v = .ok t := by
  induction h generalizing fuel with
  | node root fields name dirs files ts hname hdirs hfiles hroot hlength hall hsegments hdistinct ih =>
    obtain ⟨fuel, rfl⟩ : ∃ n, fuel = n + 1 := ⟨fuel - 1, by omega⟩
    obtain ⟨htsNodup, hfsNodup, hfree⟩ := List.nodup_append.mp hdistinct
    have hfields := (nodeFields_eq_ok_iff (.obj fields) name dirs (files.map .str)).mpr
      ⟨fields, rfl, hname, hdirs, hfiles⟩
    have hcheck := (checkNodeName_eq_ok_iff root name).mpr hroot
    have hts : readDistinct (ofJsonBelow fuel false) Tree.name name dirs [] = .ok ts := by
      refine (readDistinct_eq_ok_iff _ _ _ _ _ _).mpr ⟨?_, htsNodup, by simp⟩
      refine List.forall₂_iff_zip.mpr ⟨hlength, fun {d t} hp => ?_⟩
      -- a directory lies deeper than its node, so the fuel that is left is enough for it
      have hdepth := depth_of_dirs fields dirs d hdirs (List.of_mem_zip hp).1
      exact ih (d, t) hp fuel (show d.depth < fuel by omega)
    have hfs : readDistinct readName id name (files.map .str) (ts.map Tree.name) = .ok files := by
      refine (readDistinct_eq_ok_iff _ _ _ _ _ _).mpr ⟨?_, by rwa [List.map_id], ?_⟩
      · exact (forall₂_readName_iff _ _).mpr ⟨rfl, hsegments⟩
      · exact fun f hf hmem => hfree f hmem f hf rfl
    simp only [ofJsonBelow, hfields, hcheck, checkDirs_eq, hts, checkFiles_eq, hfs]

theorem ofJson_eq_ok_iff (v : Json) (t : Tree) : ofJson v = .ok t ↔ Spells true v t :=
  ⟨spells_of_ofJsonBelow _ _ _ _, fun h => ofJsonBelow_of_spells _ _ _ h _ (Nat.lt_succ_self _)⟩

theorem wellFormed_of_spells (root : Bool) (v : Json) (t : Tree) (h : Spells root v t) :
    t.WellFormed ∧ (root = false → Name.isSegment t.name = true) := by
  induction h with
  | node root fields name dirs files ts hname hdirs hfiles hroot hlength hall hsegments hdistinct ih =>
    have hmem : ∀ t ∈ ts, t.WellFormed ∧ Name.isSegment t.name = true := by
      intro t ht
      obtain ⟨i, hi, rfl⟩ := List.getElem_of_mem ht
      have hp : (dirs[i], ts[i]) ∈ dirs.zip ts := by
        rw [← List.getElem_zip (h := by rw [List.length_zip]; omega)]
        exact List.getElem_mem _
      obtain ⟨hwell, hseg⟩ := ih _ hp
      exact ⟨hwell, hseg rfl⟩
    refine ⟨(wellFormed_iff _).mpr ⟨⟨hdistinct, fun t ht => (hmem t ht).2, hsegments⟩, ?_⟩, hroot⟩
    exact fun t ht => (hmem t ht).1

theorem ofJson_wellFormed (v : Json) (t : Tree) (h : ofJson v = .ok t) : t.WellFormed :=
  (wellFormed_of_spells true v t ((ofJson_eq_ok_iff v t).mp h)).1

mutual

theorem spells_toJson : (t : Tree) → t.WellFormed → (root : Bool) →
    (root = false → Name.isSegment t.name = true) → Spells root t.toJson t.copy
  | .node n s ds fs, h, root, hroot => by
    obtain ⟨hlength, hall⟩ := spells_toJsonAll ds h.2 h.1.dirNames
    refine .node root _ n (toJsonAll ds) fs (withSealAll false ds) rfl rfl rfl hroot hlength hall
      h.1.fileNames ?_
    rw [map_name_withSealAll]
    exact h.1.distinct

theorem spells_toJsonAll : (ts : List Tree) → WellFormedAll ts →
    (∀ t ∈ ts, Name.isSegment t.name = true) →
    (toJsonAll ts).length = (withSealAll false ts).length ∧
      ∀ p ∈ (toJsonAll ts).zip (withSealAll false ts), Spells false p.1 p.2
  | [], _, _ => ⟨rfl, nofun⟩
  | t :: ts, h, hnames => by
    rw [List.forall_mem_cons] at hnames
    obtain ⟨hlength, hall⟩ := spells_toJsonAll ts h.2 hnames.2
    refine ⟨congrArg (· + 1) hlength, ?_⟩
    rw [toJsonAll, withSealAll, List.zip_cons_cons, List.forall_mem_cons]
    exact ⟨spells_toJson t h.1 false (fun _ => hnames.1), hall⟩

end

theorem ofJson_toJson (t : Tree) (h : t.WellFormed) : ofJson t.toJson = .ok t.copy :=
  (ofJson_eq_ok_iff _ _).mpr (spells_toJson t h true nofun)

/-- What an operation makes of the node that it starts from. -/
inductive Edit : Tree → Tree → Prop
  | insertFile (t u : Tree) (v : Json) (path : List String) (hv : segmentsOf v = .ok path)
      (h : t.insertFile path = .ok u) : Edit t u
  | insertDirectory (t u : Tree) (v : Json) (path : List String) (hv : segmentsOf v = .ok path)
      (h : t.insertDirectory path = .ok u) : Edit t u
  | close (t : Tree) : Edit t t.close

inductive Built : Tree → Prop
  | empty (n : String) : Built (empty n)
  | ofJson (v : Json) (t : Tree) (h : ofJson v = .ok t) : Built t
  | copy (t : Tree) (ht : Built t) : Built t.copy
  | part (t u : Tree) (place : List String) (ht : Built t) (hu : t.at? place = some u) : Built u
  | edit (t u v : Tree) (place : List String) (ht : Built t) (hu : t.at? place = some u)
      (h : Edit u v) : Built (replaceAt v place t)

theorem Edit.wellFormed (t u : Tree) (h : Edit t u) (ht : t.WellFormed) :
    u.WellFormed ∧ u.name = t.name := by
  cases h with
  | insertFile _ v path hv h =>
    obtain ⟨hne, hpath⟩ := segmentsOf_segments v path hv
    exact insertFile_wellFormed t u path ht hne hpath h
  | insertDirectory _ v path hv h =>
    exact insertDirectory_wellFormed t u path ht (segmentsOf_segments v path hv).2 h
  | close => exact ⟨withSeal_wellFormed true t ht, withSeal_name true t⟩

/-- A node can be replaced by another of its name. -/
theorem replaceAt_wellFormed (v : Tree) (place : List String) (t u : Tree) (ht : t.WellFormed)
    (hu : t.at? place = some u) (hv : v.WellFormed) (hname : v.name = u.name) :
    (replaceAt v place t).WellFormed ∧ (replaceAt v place t).name = t.name := by
  induction place generalizing t with
  | nil =>
    cases hu
    exact ⟨hv, hname⟩
  | cons s rest ih =>
    cases hc : t.child? s with
    | none =>
      rw [at?, hc] at hu
      cases hu
    | some c =>
      rw [at?, hc] at hu
      obtain ⟨hcWell, hcName⟩ := child?_wellFormed t s c ht hc
      have hroot : ∀ w, w.name = s → (replaceAt v rest w).name = s := by
        intro w hw
        cases rest with
        | nil =>
          cases hu
          exact hname.trans hcName
        | cons r rest =>
          rw [replaceAt]
          split <;> exact hw
      have hsegment : Name.isSegment s = true := by
        have hmem := List.mem_of_find?_eq_some hc
        exact hcName ▸ ((wellFormed_iff t).mp ht).1.dirNames c hmem
      rw [replaceAt, hc]
      refine ⟨withDirs_updateNamed_wellFormed s _ t ht hsegment ?_ hroot ?_ ?_, rfl⟩
      · intro hnone
        rw [hc] at hnone
        cases hnone
      · intro d hd
        rw [hc] at hd
        cases hd
        exact (ih c hcWell hu).1
      · intro hnone
        rw [hc] at hnone
        cases hnone

theorem Built.wellFormed (t : Tree) (h : t.Built) : t.WellFormed := by
  induction h with
  | empty n => exact wellFormed_empty n
  | ofJson v t h => exact ofJson_wellFormed v t h
  | copy t _ ih => exact withSeal_wellFormed false t ih
  | part t u place _ hu ih => exact at?_wellFormed place t u ih hu
  | edit t u v place _ hu h ih =>
    obtain ⟨hv, hname⟩ := Edit.wellFormed u v h (at?_wellFormed place t u ih hu)
    exact (replaceAt_wellFormed v place t u ih hu hv hname).1

theorem Built.close (t : Tree) (h : t.Built) : t.close.Built :=
  .edit t t t.close [] h rfl (.close t)

end DocNavigation.Tree
