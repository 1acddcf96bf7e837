import DocNavigation.Disk.Basic
import DocNavigation.Proofs.Text.Lines
import DocNavigation.Proofs.Text.Trim
import Mathlib.Data.List.Basic

/-!
Plain paths: rooted, and nothing but names that are looked up. The normal form of a rooted path is
plain, and cutting off the last name keeps a path plain.
-/

namespace DocNavigation.Path

/-- A name that is neither empty nor a relative marker. -/
structure IsName (s : String) : Prop where
  full : s ≠ ""
  dot : s ≠ "."
  dots : s ≠ ".."
  slash : '/' ∉ s.toList

/-- The path is some slashes and then these names with slashes between them. -/
structure Plain (path : String) (names : List String) : Prop where
  spelled : ∃ slashes, 0 < slashes ∧ path.toList =
    List.replicate slashes '/' ++ ['/'].intercalate (names.map String.toList)
  names : ∀ s ∈ names, IsName s

theorem isRooted_iff (path : String) : isRooted path = true ↔ ∃ cs, path.toList = '/' :: cs := by
  change ['/'].isPrefixOf path.toList = true ↔ _
  rw [List.isPrefixOf_iff_prefix]
  constructor
  · intro ⟨cs, hcs⟩
    exact ⟨cs, hcs.symm⟩
  · intro ⟨cs, hcs⟩
    exact ⟨cs, hcs.symm⟩

theorem endsWith_slash (path : String) :
    Text.endsWith "/" path = true ↔ path.toList.getLast? = some '/' := by
  change ['/'].isSuffixOf path.toList = true ↔ _
  rw [List.isSuffixOf_iff_suffix, List.singleton_suffix_iff_getLast?_eq_some]

theorem settle_isName (done parts : List String) (hdone : ∀ s ∈ done, IsName s)
    (hparts : ∀ s ∈ parts, '/' ∉ s.toList) : ∀ s ∈ settle true done parts, IsName s := by
  induction parts generalizing done with
  | nil =>
    intro s hs
    exact hdone s (List.mem_reverse.mp hs)
  | cons p parts ih =>
    rw [List.forall_mem_cons] at hparts
    unfold settle
    by_cases hp : p = "" ∨ p = "."
    · rw [if_pos hp]
      exact ih done hdone hparts.2
    rw [not_or] at hp
    by_cases hdots : p = ".."
    · rw [if_neg (not_or.mpr hp), if_neg (fun hne => hne hdots)]
      cases done with
      | nil => exact ih [] (by simp) hparts.2
      | cons d above =>
        rw [List.forall_mem_cons] at hdone
        simp only [if_neg hdone.1.dots]
        exact ih above hdone.2 hparts.2
    · rw [if_neg (not_or.mpr hp), if_pos hdots]
      apply ih _ _ hparts.2
      rw [List.forall_mem_cons]
      exact ⟨⟨hp.1, hp.2, hdots, hparts.1⟩, hdone⟩

theorem leadingSlashes_pos (cs : List Char) : 0 < leadingSlashes ('/' :: cs) := by
  unfold leadingSlashes
  split
  · simp_all
  · omega
  · omega

theorem normal_spelled (path : String) (h : isRooted path = true) :
    (normal path).toList = List.replicate (leadingSlashes path.toList) '/' ++
      ['/'].intercalate ((settle true [] (Text.split '/' path)).map String.toList) := by
  obtain ⟨cs, hcs⟩ := (isRooted_iff path).mp h
  have hpos := leadingSlashes_pos cs
  rw [← hcs] at hpos
  have hroot : decide (0 < leadingSlashes path.toList) = true := decide_eq_true hpos
  have htext : (String.ofList (List.replicate (leadingSlashes path.toList) '/') ++
      Text.join "/" (settle true [] (Text.split '/' path))).toList =
      List.replicate (leadingSlashes path.toList) '/' ++
        ['/'].intercalate ((settle true [] (Text.split '/' path)).map String.toList) := by
    rw [String.toList_append, String.toList_ofList, Text.join, String.toList_intercalate]
    rfl
  unfold normal
  simp only [hroot]
  rw [if_neg]
  · exact htext
  · intro hempty
    rw [hempty] at htext
    have hlength := congrArg List.length htext
    rw [List.length_append, List.length_replicate] at hlength
    simp at hlength
    omega

theorem isName_settle (path : String) : ∀ s ∈ settle true [] (Text.split '/' path), IsName s := by
  apply settle_isName [] _ (by simp)
  unfold Text.split
  rw [List.forall_mem_map]
  intro l hl
  rw [String.toList_ofList]
  exact Text.not_mem_of_mem_pieces '/' _ l hl

theorem plain_settle (path : String) (h : isRooted path = true) :
    Plain (normal path) (settle true [] (Text.split '/' path)) := by
  obtain ⟨cs, hcs⟩ := (isRooted_iff path).mp h
  have hpos := leadingSlashes_pos cs
  rw [← hcs] at hpos
  exact ⟨⟨_, hpos, normal_spelled path h⟩, isName_settle path⟩

theorem normal_plain (path : String) (h : isRooted path = true) :
    ∃ names, Plain (normal path) names :=
  ⟨_, plain_settle path h⟩

/-- Where a path starts from a rooted folder, it is rooted. -/
theorem isRooted_from (workdir path : String) (h : isRooted workdir = true) :
    isRooted (if isRooted path then path else join workdir path) = true := by
  by_cases hp : isRooted path = true
  · rw [if_pos hp]
    exact hp
  · obtain ⟨cs, hcs⟩ := (isRooted_iff workdir).mp h
    have hne : workdir ≠ "" := by
      intro hempty
      rw [hempty] at hcs
      cases hcs
    rw [if_neg hp, join, if_neg (by simp [hp, hne]), isRooted_iff]
    by_cases hend : Text.endsWith "/" workdir = true
    · rw [if_pos hend]
      exact ⟨cs ++ path.toList, by rw [String.toList_append, hcs]; rfl⟩
    · rw [if_neg hend]
      exact ⟨cs ++ "/".toList ++ path.toList, by
        rw [String.toList_append, String.toList_append, hcs]; rfl⟩

theorem absolute_plain (workdir path : String) (h : isRooted workdir = true) :
    ∃ names, Plain (absolute workdir path) names :=
  normal_plain _ (isRooted_from workdir path h)

theorem Plain.isRooted (path : String) (names : List String) (h : Plain path names) :
    isRooted path = true := by
  obtain ⟨slashes, hpos, hspelled⟩ := h.spelled
  rw [isRooted_iff, hspelled]
  cases slashes with
  | zero => omega
  | succ n => exact ⟨_, rfl⟩

theorem isRooted_absolute (workdir path : String) (h : isRooted workdir = true) :
    isRooted (absolute workdir path) = true := by
  obtain ⟨names, hplain⟩ := absolute_plain workdir path h
  exact hplain.isRooted

theorem plain_snoc (path : String) (names : List String) (s : String)
    (h : Plain path (names ++ [s])) : ∃ base, path.toList = base ++ '/' :: s.toList ∧
      ((names = [] ∧ ∀ c ∈ base, c = '/') ∨ (names ≠ [] ∧ Plain (String.ofList base) names)) := by
  obtain ⟨⟨slashes, hpos, hspelled⟩, hnames⟩ := h
  rw [List.map_append, List.map_singleton] at hspelled
  by_cases hn : names = []
  · subst hn
    obtain ⟨count, rfl⟩ : ∃ count, slashes = count + 1 := ⟨slashes - 1, by omega⟩
    refine ⟨List.replicate count '/', ?_, .inl ⟨rfl, fun c hc => List.eq_of_mem_replicate hc⟩⟩
    rw [hspelled, List.replicate_succ']
    simp
  · refine ⟨List.replicate slashes '/' ++ ['/'].intercalate (names.map String.toList), ?_,
      .inr ⟨hn, ⟨slashes, hpos, String.toList_ofList ..⟩, ?_⟩⟩
    · rw [hspelled, Text.intercalate_snoc _ _ _ (by simpa using hn), List.append_assoc]
    · intro t ht
      exact hnames t (List.mem_append_left _ ht)

theorem plain_last (path : String) (names : List String) (h : Plain path names) (hn : names ≠ []) :
    ∃ cs c, path.toList = cs ++ [c] ∧ c ≠ '/' := by
  obtain ⟨names, s, rfl⟩ := (List.eq_nil_or_concat' names).resolve_left hn
  obtain ⟨base, hbase, -⟩ := plain_snoc path names s h
  have hs := h.names s (by simp)
  have hfull : s.toList ≠ [] := mt String.toList_eq_nil_iff.mp hs.full
  obtain ⟨cs, c, hc⟩ := (List.eq_nil_or_concat' s.toList).resolve_left hfull
  refine ⟨base ++ '/' :: cs, c, by rw [hbase, hc]; simp, ?_⟩
  intro heq
  exact hs.slash (by simp [hc, heq])

theorem plain_ends (path : String) (names : List String) (h : Plain path names) :
    Text.endsWith "/" path = true ↔ names = [] := by
  rw [endsWith_slash]
  constructor
  · intro hend
    by_contra hn
    obtain ⟨cs, c, hc, hslash⟩ := plain_last path names h hn
    rw [hc, List.getLast?_concat] at hend
    exact hslash (Option.some.inj hend)
  · intro hn
    obtain ⟨slashes, hpos, hspelled⟩ := h.spelled
    obtain ⟨count, rfl⟩ : ∃ count, slashes = count + 1 := ⟨slashes - 1, by omega⟩
    rw [hspelled, hn, List.map_nil, List.intercalate_nil, List.append_nil, List.replicate_succ',
      List.getLast?_concat]

theorem split_spelled (path : String) (slashes : Nat) (names : List String)
    (hspelled : path.toList = List.replicate slashes '/' ++
      ['/'].intercalate (names.map String.toList))
    (hnames : ∀ s ∈ names, IsName s) :
    (Text.split '/' path).filter (· ≠ "") = names := by
  have hempty : ∀ parts : List String, (List.replicate slashes "" ++ parts).filter (· ≠ "") =
      parts.filter (· ≠ "") := by
    intro parts
    rw [List.filter_append, List.filter_eq_nil_iff.mpr]
    · rfl
    · intro p hp
      simp [List.eq_of_mem_replicate hp]
  have hpieces : ∀ ls : List (List Char), ls ≠ [] → (∀ l ∈ ls, '/' ∉ l) →
      path.toList = List.replicate slashes '/' ++ ['/'].intercalate ls →
      Text.split '/' path = List.replicate slashes "" ++ ls.map String.ofList := by
    intro ls hls hslash hpath
    have hall : ∀ l ∈ List.replicate slashes [] ++ ls, '/' ∉ l := by
      intro l hl
      rcases List.mem_append.mp hl with hl | hl
      · rw [List.eq_of_mem_replicate hl]
        exact List.not_mem_nil
      · exact hslash l hl
    rw [Text.split, Text.pieces_eq_splitOn, hpath, ← Text.intercalate_replicate '/' slashes ls hls,
      List.splitOn_intercalate '/' hall (by simp [hls]), List.map_append, List.map_replicate]
  by_cases hn : names = []
  · subst hn
    rw [hpieces [[]] (by simp) (by simp) (by simpa using hspelled), hempty]
    rfl
  · have hslash : ∀ l ∈ names.map String.toList, '/' ∉ l := by
      rw [List.forall_mem_map]
      intro s hs
      exact (hnames s hs).slash
    have hback : (names.map String.toList).map String.ofList = names := by
      rw [List.map_map]
      apply List.map_id''
      intro s
      exact String.ofList_toList
    rw [hpieces _ (by simpa using hn) hslash hspelled, hempty, hback, List.filter_eq_self]
    intro s hs
    exact decide_eq_true (hnames s hs).full

theorem namesIn_plain (path : String) (names : List String) (h : Plain path names) :
    Disk.namesIn path = if names = [] then ["."] else names := by
  have hends := plain_ends path names h
  obtain ⟨⟨slashes, -, hspelled⟩, hnames⟩ := h
  rw [Disk.namesIn, split_spelled path slashes names hspelled hnames]
  by_cases hn : names = []
  · rw [if_pos (hends.mpr hn), if_pos hn, hn, List.nil_append]
  · rw [if_neg (mt hends.mp hn), if_neg hn, List.append_nil]

theorem cutLast_append (base cs : List Char) (h : '/' ∉ cs) :
    cutLast (base ++ '/' :: cs) = (base ++ ['/'], cs) := by
  have hall : ∀ c ∈ cs.reverse, decide (c ≠ '/') = true := by
    intro c hc
    apply decide_eq_true
    intro heq
    exact h (heq ▸ List.mem_reverse.mp hc)
  have hback : (base ++ '/' :: cs).reverse = cs.reverse ++ '/' :: base.reverse := by simp
  unfold cutLast
  simp only [hback]
  rw [List.dropWhile_append_of_pos hall, List.takeWhile_append_of_pos hall]
  simp

theorem split_plain (path : String) (names : List String) (s : String)
    (h : Plain path (names ++ [s])) : Plain (split path).1 names ∧ (split path).2 = s := by
  have hs := h.names s (by simp)
  obtain ⟨base, hbase, hcases⟩ := plain_snoc path names s h
  unfold split
  rw [hbase, cutLast_append base s.toList hs.slash]
  refine ⟨?_, String.ofList_toList⟩
  rcases hcases with ⟨hn, hall⟩ | ⟨hn, hplain⟩
  · have hslashes : (base ++ ['/']).all (· = '/') = true := by
      rw [List.all_append, List.all_eq_true.mpr (fun c hc => decide_eq_true (hall c hc))]
      rfl
    simp only [hslashes, if_true]
    subst hn
    refine ⟨⟨base.length + 1, by omega, ?_⟩, by simp⟩
    rw [String.toList_ofList, List.eq_replicate_of_mem hall, List.length_replicate,
      List.replicate_succ']
    simp
  · obtain ⟨b, c, hb, hc⟩ := plain_last (String.ofList base) names hplain hn
    rw [String.toList_ofList] at hb
    have hslashes : (base ++ ['/']).all (· = '/') = false := by
      rw [hb]
      simp [hc]
    have hdrop : dropSlashes (base ++ ['/']) = base := by
      rw [hb]
      simp [dropSlashes, hc]
    simp only [hslashes, hdrop]
    exact hplain

theorem split_root (path : String) (h : Plain path []) : split path = (path, "") := by
  obtain ⟨slashes, hpos, hspelled⟩ := h.spelled
  obtain ⟨count, rfl⟩ : ∃ count, slashes = count + 1 := ⟨slashes - 1, by omega⟩
  have hbase : path.toList = List.replicate count '/' ++ '/' :: [] := by
    rw [hspelled, List.replicate_succ', List.map_nil, List.intercalate_nil, List.append_nil]
  rw [split, hbase, cutLast_append _ [] List.not_mem_nil]
  simp only
  rw [if_pos (by simp), ← hbase, String.ofList_toList]

/-- The folder of a plain path. -/
theorem folder_plain (path : String) (names : List String) (h : Plain path names) :
    Plain (folder path) names.dropLast := by
  rcases List.eq_nil_or_concat' names with rfl | ⟨names, s, rfl⟩
  · rw [folder, split_root path h]
    exact h
  · rw [List.dropLast_concat]
    exact (split_plain path names s h).1

theorem isPrefix_dropSlashes (cs : List Char) : dropSlashes cs <+: cs := by
  have h := List.reverse_prefix.mpr (List.dropWhile_suffix (l := cs.reverse) (· = '/'))
  rw [List.reverse_reverse] at h
  exact h

theorem isPrefix_cutLast (cs : List Char) : (cutLast cs).1 <+: cs := by
  have h := List.reverse_prefix.mpr (List.dropWhile_suffix (l := cs.reverse) (· ≠ '/'))
  rw [List.reverse_reverse] at h
  exact h

theorem isPrefix_split (path : String) : (split path).1.toList <+: path.toList := by
  rw [split, String.toList_ofList]
  have hcut := isPrefix_cutLast path.toList
  split
  · exact hcut
  · exact (isPrefix_dropSlashes _).trans hcut

theorem split_size (path : String) : (split path).1.utf8ByteSize ≤ path.utf8ByteSize := by
  obtain ⟨rest, hrest⟩ := isPrefix_split path
  have hpath : path = (split path).1 ++ String.ofList rest := by
    apply String.toList_inj.mp
    rw [String.toList_append, String.toList_ofList, hrest]
  have hsize := congrArg String.utf8ByteSize hpath
  rw [String.utf8ByteSize_append] at hsize
  omega

theorem plain_unique (path : String) (names names' : List String) (h : Plain path names)
    (h' : Plain path names') : names = names' := by
  obtain ⟨⟨slashes, -, hspelled⟩, hnames⟩ := h
  obtain ⟨⟨slashes', -, hspelled'⟩, hnames'⟩ := h'
  rw [← split_spelled path slashes names hspelled hnames,
    ← split_spelled path slashes' names' hspelled' hnames']

theorem folder_shorter (path : String) (names : List String) (s : String)
    (h : Plain path (names ++ [s])) : (folder path).length < path.length := by
  have hstart : (folder path).toList <+: path.toList := isPrefix_split path
  have hlength := hstart.length_le
  rw [String.length_toList, String.length_toList] at hlength
  apply Nat.lt_of_le_of_ne hlength
  intro hsame
  have hpath : folder path = path := by
    apply String.toList_inj.mp
    apply hstart.eq_of_length
    rw [String.length_toList, String.length_toList, hsame]
  have habove : Plain (folder path) names := (split_plain path names s h).1
  rw [hpath] at habove
  have hnames := congrArg List.length (plain_unique path names _ habove h)
  simp at hnames

theorem folder_noNull (path : String) (h : path.toList.contains '\x00' = false) :
    (folder path).toList.contains '\x00' = false := by
  obtain ⟨rest, hrest⟩ := isPrefix_split path
  rw [← hrest, List.contains_append, Bool.or_eq_false_iff] at h
  exact h.1

theorem IsName.isRooted (s : String) (hs : IsName s) : isRooted s = false := by
  rw [← Bool.not_eq_true, isRooted_iff]
  intro ⟨cs, hcs⟩
  exact hs.slash (by simp [hcs])

theorem Plain.full (path : String) (names : List String) (h : Plain path names) : path ≠ "" := by
  intro hempty
  have hrooted := Plain.isRooted path names h
  rw [hempty] at hrooted
  exact absurd hrooted (by decide)

theorem join_spelled (folder : String) (slashes : Nat) (hpos : 0 < slashes) (names : List String)
    (s : String) (hspelled : folder.toList = List.replicate slashes '/' ++
      ['/'].intercalate (names.map String.toList))
    (hnames : ∀ t ∈ names, IsName t) (hs : IsName s) :
    (join folder s).toList = List.replicate slashes '/' ++
      ['/'].intercalate ((names ++ [s]).map String.toList) := by
  have hplain : Plain folder names := ⟨⟨slashes, hpos, hspelled⟩, hnames⟩
  have hfull := Plain.full folder names hplain
  have hends := plain_ends folder names hplain
  rw [join, hs.isRooted, Bool.false_or, if_neg (by simpa using hfull), List.map_append,
    List.map_singleton]
  by_cases hn : names = []
  · rw [if_pos (hends.mpr hn), String.toList_append, hspelled, hn]
    simp
  · rw [if_neg (mt hends.mp hn), String.toList_append,
      String.toList_append, hspelled, Text.intercalate_snoc _ _ _ (by simpa using hn), List.append_assoc, List.append_assoc]
    rfl

theorem join_plain (folder : String) (names : List String) (s : String) (h : Plain folder names)
    (hs : IsName s) : Plain (join folder s) (names ++ [s]) := by
  obtain ⟨⟨slashes, hpos, hspelled⟩, hnames⟩ := h
  refine ⟨⟨slashes, hpos, join_spelled folder slashes hpos names s hspelled hnames hs⟩, ?_⟩
  intro t ht
  rcases List.mem_append.mp ht with ht | ht
  · exact hnames t ht
  · exact List.mem_singleton.mp ht ▸ hs

theorem join_noNull (a b : String) (ha : a.toList.contains '\x00' = false)
    (hb : b.toList.contains '\x00' = false) : (join a b).toList.contains '\x00' = false := by
  unfold join
  split
  · exact hb
  split
  · rw [String.toList_append, List.contains_append, ha, hb]
    rfl
  · have hslash : "/".toList.contains '\x00' = false := by decide
    rw [String.toList_append, String.toList_append, List.contains_append,
      List.contains_append, ha, hb, hslash]
    rfl

theorem isRemote_of_isRooted (path : String) (h : isRooted path = true) : isRemote path = false := by
  obtain ⟨cs, hcs⟩ := (isRooted_iff path).mp h
  obtain ⟨rest, hrest⟩ := Text.head_trim path '/' cs hcs (by decide)
  have hlower : (Text.lowerAscii (Text.trim path)).toList =
      '/' :: rest.map fun c => Char.ofNat (Text.asciiLower c.toNat) := by
    rw [Text.lowerAscii, hrest, String.toList_ofList, List.map_cons]
    rfl
  rw [isRemote]
  simp only [Text.startsWith, hlower]
  rfl

end DocNavigation.Path
