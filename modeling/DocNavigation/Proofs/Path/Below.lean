import DocNavigation.Proofs.Path.Normal
import Mathlib.Data.List.TakeWhile

/-!
Paths of a name in a folder. The name is the last of the path, and all that comes before it, also in
the normal form, is as in the path of the folder.
-/

namespace DocNavigation.Path

/-- The slash that sets a path apart from what is joined to it. -/
def slashAfter (path : String) : String :=
  if Text.endsWith "/" path then "" else "/"

theorem join_relative (a b : String) (ha : a ≠ "") (hb : isRooted b = false) :
    join a b = a ++ slashAfter a ++ b := by
  rw [join, hb, Bool.false_or, if_neg (by simpa using ha), slashAfter]
  split
  · rw [String.append_empty]
  · rfl

/-- The slashes that begin a path end before its own end, if it does not end with one. -/
theorem slashes_short (cs : List Char) (hsome : cs ≠ []) (hlast : cs.getLast? ≠ some '/') :
    (cs.takeWhile (· = '/')).length ≠ cs.length := by
  intro hall
  have hwhole : cs.takeWhile (· = '/') = cs := (List.takeWhile_prefix _).eq_of_length hall
  have hslash := List.takeWhile_eq_self_iff.mp hwhole _ (List.getLast_mem hsome)
  apply hlast
  rw [List.getLast?_eq_some_getLast hsome, of_decide_eq_true hslash]

section
variable (path s : String) (hfull : path ≠ "") (hs : IsName s)
include hfull hs

/-- The name follows a slash, which the path of the folder has at its end or not. -/
theorem join_cut : ∃ init, (join path s).toList = init ++ '/' :: s.toList ∧
    ((path.toList = init ∧ path.toList.getLast? ≠ some '/') ∨ path.toList = init ++ ['/']) := by
  rw [join_relative path s hfull hs.isRooted, slashAfter]
  by_cases hend : Text.endsWith "/" path = true
  · obtain ⟨init, hinit⟩ := List.getLast?_eq_some_iff.mp ((endsWith_slash path).mp hend)
    refine ⟨init, ?_, .inr hinit⟩
    rw [if_pos hend, String.append_empty, String.toList_append, hinit, List.append_assoc]
    rfl
  · refine ⟨path.toList, ?_, .inl ⟨rfl, mt (endsWith_slash path).mpr hend⟩⟩
    rw [if_neg hend, String.toList_append, String.toList_append, List.append_assoc]
    rfl

theorem join_full : join path s ≠ "" := by
  intro hempty
  obtain ⟨init, hjoin, -⟩ := join_cut path s hfull hs
  rw [hempty] at hjoin
  exact absurd hjoin (by simp)

theorem parts_join : (Text.split '/' (join path s)).filter (· ≠ "") =
    (Text.split '/' path).filter (· ≠ "") ++ [s] := by
  have hlast : Text.pieces '/' s.toList = [s.toList] := by
    rw [Text.pieces_eq_splitOn]
    exact List.splitOn_eq_singleton hs.slash
  have hname : [s.toList].map String.ofList = [s] := by
    rw [List.map_singleton, String.ofList_toList]
  obtain ⟨init, hjoin, ⟨hpath, -⟩ | hpath⟩ := join_cut path s hfull hs
  · rw [Text.split, Text.split, hjoin, Text.pieces_append, hlast, hpath, List.map_append, hname,
      List.filter_append, List.filter_cons_of_pos (by simpa using hs.full), List.filter_nil]
  · have hempty : (Text.pieces '/' []).map String.ofList = [""] := by decide
    rw [Text.split, Text.split, hjoin, Text.pieces_append, hlast, hpath, Text.pieces_append,
      List.map_append, List.map_append, hname, hempty, List.filter_append, List.filter_append,
      List.filter_cons_of_pos (by simpa using hs.full)]
    simp

theorem leadingSlashes_join :
    leadingSlashes (join path s).toList = leadingSlashes path.toList := by
  have hname : s.toList.takeWhile (· = '/') = [] := by
    cases hcs : s.toList with
    | nil => rfl
    | cons c cs =>
      have hc : c ≠ '/' := by
        intro heq
        exact hs.slash (by simp [hcs, heq])
      simp [hc]
  have hsame : ((join path s).toList.takeWhile (· = '/')).length =
      (path.toList.takeWhile (· = '/')).length := by
    obtain ⟨init, hjoin, ⟨hpath, hlast⟩ | hpath⟩ := join_cut path s hfull hs
    · -- the path does not end with a slash, so that the slashes end before its own end
      have hsome := mt String.toList_eq_nil_iff.mp hfull
      rw [hpath] at hsome hlast
      rw [hjoin, hpath, List.takeWhile_append, if_neg (slashes_short init hsome hlast)]
    · have hback : init ++ '/' :: s.toList = (init ++ ['/']) ++ s.toList := by simp
      rw [hjoin, hpath, hback, List.takeWhile_append, hname, List.append_nil]
      split
      case isTrue hall => exact hall.symm
      case isFalse => rfl
  rw [leadingSlashes, leadingSlashes, hsame]

theorem isRooted_join : isRooted (join path s) = isRooted path := by
  obtain ⟨c, cs, hcs⟩ := List.exists_cons_of_ne_nil (mt String.toList_eq_nil_iff.mp hfull)
  have hstart : ∃ rest, (join path s).toList = c :: rest := by
    obtain ⟨init, hjoin, ⟨hpath, -⟩ | hpath⟩ := join_cut path s hfull hs
    · exact ⟨_, by rw [hjoin, ← hpath, hcs]; rfl⟩
    · have hback : init ++ '/' :: s.toList = (init ++ ['/']) ++ s.toList := by simp
      exact ⟨_, by rw [hjoin, hback, ← hpath, hcs]; rfl⟩
  obtain ⟨rest, hrest⟩ := hstart
  rw [Bool.eq_iff_iff, isRooted_iff, isRooted_iff, hcs, hrest]
  constructor
  · intro ⟨ds, hds⟩
    exact ⟨cs, by rw [(List.cons.inj hds).1]⟩
  · intro ⟨ds, hds⟩
    exact ⟨rest, by rw [(List.cons.inj hds).1]⟩

theorem endsWith_join : Text.endsWith "/" (join path s) = false := by
  rw [← Bool.not_eq_true, endsWith_slash]
  intro hend
  obtain ⟨init, hjoin, -⟩ := join_cut path s hfull hs
  obtain ⟨cs, c, hc⟩ := (List.eq_nil_or_concat' s.toList).resolve_left
    (mt String.toList_eq_nil_iff.mp hs.full)
  have hback : init ++ '/' :: (cs ++ [c]) = (init ++ '/' :: cs) ++ [c] := by simp
  rw [hjoin, hc, hback, List.getLast?_concat] at hend
  exact hs.slash (by simp [hc, Option.some.inj hend])

theorem namesIn_join :
    Disk.namesIn (join path s) = (Text.split '/' path).filter (· ≠ "") ++ [s] := by
  rw [Disk.namesIn, parts_join path s hfull hs, endsWith_join path s hfull hs,
    if_neg Bool.false_ne_true, List.append_nil]

theorem join_size : (join path s).utf8ByteSize ≤ path.utf8ByteSize + 1 + s.utf8ByteSize := by
  have hslash : (slashAfter path).utf8ByteSize ≤ 1 := by
    unfold slashAfter
    split
    · decide
    · decide
  rw [join_relative path s hfull hs.isRooted, String.utf8ByteSize_append,
    String.utf8ByteSize_append]
  omega

theorem normal_join (hrooted : isRooted path = true) :
    normal (join path s) = join (normal path) s := by
  obtain ⟨cs, hcs⟩ := (isRooted_iff path).mp hrooted
  have hpos := leadingSlashes_pos cs
  rw [← hcs] at hpos
  have hnames : settle true [] (Text.split '/' (join path s)) =
      settle true [] (Text.split '/' path) ++ [s] := by
    have hone : ∀ t ∈ [s], IsName t := by
      intro t ht
      exact List.mem_singleton.mp ht ▸ hs
    rw [← settle_filter, parts_join path s hfull hs, settle_append, settle_names _ _ _ hone,
      settle_filter, List.reverse_reverse]
  apply String.toList_inj.mp
  rw [normal_spelled _ ((isRooted_join path s hfull hs).trans hrooted), hnames,
    leadingSlashes_join path s hfull hs]
  exact (join_spelled _ _ hpos _ s (normal_spelled path hrooted) (isName_settle path) hs).symm

/-- It makes no difference whether a relative path is extended before or after it is placed. -/
theorem join_join (workdir : String) (hwork : workdir ≠ "") (hrelative : isRooted path = false) :
    join workdir (join path s) = join (join workdir path) s := by
  have hends : ∀ a, Text.endsWith "/" (a ++ path) = Text.endsWith "/" path := by
    intro a
    rw [Bool.eq_iff_iff, endsWith_slash, endsWith_slash, String.toList_append,
      List.getLast?_append_of_ne_nil _ (mt String.toList_eq_nil_iff.mp hfull)]
  have hbetween : ∀ a, slashAfter (a ++ path) = slashAfter path := by
    intro a
    rw [slashAfter, slashAfter, hends]
  have hplaced := join_relative workdir path hwork hrelative
  have hfull' : join workdir path ≠ "" := by
    rw [hplaced]
    exact fun hempty => hfull (String.append_eq_empty_iff.mp hempty).2
  have houter := join_relative workdir (join path s) hwork
    ((isRooted_join path s hfull hs).trans hrelative)
  rw [houter, join_relative path s hfull hs.isRooted, join_relative _ s hfull' hs.isRooted, hplaced,
    hbetween]
  simp only [String.append_assoc]

theorem absolute_join (workdir : String) (hwork : isRooted workdir = true) :
    absolute workdir (join path s) = join (absolute workdir path) s := by
  obtain ⟨cs, hcs⟩ := (isRooted_iff workdir).mp hwork
  have hsome : workdir ≠ "" := by
    intro hempty
    rw [hempty] at hcs
    cases hcs
  rw [absolute, absolute, isRooted_join path s hfull hs]
  by_cases hrooted : isRooted path = true
  · rw [if_pos hrooted, if_pos hrooted]
    exact normal_join path s hfull hs hrooted
  · have hplaced := isRooted_from workdir path hwork
    rw [if_neg hrooted] at hplaced
    have hfull' : join workdir path ≠ "" := by
      intro hempty
      rw [hempty] at hplaced
      exact absurd hplaced (by decide)
    rw [if_neg hrooted, if_neg hrooted,
      join_join path s hfull hs workdir hsome (Bool.eq_false_iff.mpr hrooted)]
    exact normal_join _ s hfull' hs hplaced

end

/-- The folder of the path of a name. -/
theorem folder_join (path : String) (names : List String) (s : String) (h : Plain path names)
    (hs : IsName s) : folder (join path s) = path := by
  have hfull := Plain.full path names h
  have hback : String.ofList path.toList = path := String.ofList_toList
  unfold folder split
  obtain ⟨init, hjoin, ⟨hpath, hlast⟩ | hpath⟩ := join_cut path s hfull hs
  · rw [hjoin, cutLast_append init s.toList hs.slash]
    have hsome : init ≠ [] := by
      rw [← hpath]
      exact mt String.toList_eq_nil_iff.mp hfull
    obtain ⟨base, c, rfl⟩ := (List.eq_nil_or_concat' init).resolve_left hsome
    rw [hpath, List.getLast?_concat] at hlast
    have hc : c ≠ '/' := fun heq => hlast (by rw [heq])
    have hall : ((base ++ [c]) ++ ['/']).all (· = '/') = false := by simp [hc]
    have hdrop : dropSlashes ((base ++ [c]) ++ ['/']) = base ++ [c] := by simp [dropSlashes, hc]
    simp only [hall, hdrop]
    rw [← hpath]
    exact hback
  · rw [hjoin, cutLast_append init s.toList hs.slash]
    -- a plain path that ends with a slash is the root
    have hroot : names = [] := by
      apply (plain_ends path names h).mp
      rw [endsWith_slash, hpath, List.getLast?_concat]
    obtain ⟨slashes, -, hspelled⟩ := h.spelled
    have hall : (init ++ ['/']).all (· = '/') = true := by
      rw [← hpath, hspelled, hroot]
      simp
    simp only [hall, if_true]
    rw [← hpath]
    exact hback

/-- A slash at the end makes no difference to the names of a path. -/
theorem settle_slash (path : String) : settle true [] (Text.split '/' (path ++ "/")) =
    settle true [] (Text.split '/' path) := by
  rw [← settle_filter true [] (Text.split '/' (path ++ "/")), Text.split, String.toList_append]
  change settle true [] (((Text.pieces '/' (path.toList ++ ['/'])).map _).filter _) = _
  rw [Text.pieces_append, List.map_append, List.filter_append]
  change settle true [] ((Text.split '/' path).filter _ ++ []) = _
  rw [List.append_nil, settle_filter]

theorem normal_slash (path : String) (hrooted : isRooted path = true)
    (hend : ¬ Text.endsWith "/" path = true) : normal (path ++ "/") = normal path := by
  obtain ⟨cs, hcs⟩ := (isRooted_iff path).mp hrooted
  have hrooted' : isRooted (path ++ "/") = true :=
    (isRooted_iff _).mpr ⟨cs ++ ['/'], by rw [String.toList_append, hcs]; rfl⟩
  have hslashes : leadingSlashes (path ++ "/").toList = leadingSlashes path.toList := by
    have hshort := slashes_short path.toList (by simp [hcs]) (mt (endsWith_slash path).mpr hend)
    rw [leadingSlashes, String.toList_append, List.takeWhile_append, if_neg hshort]
    rfl
  apply String.toList_inj.mp
  rw [normal_spelled _ hrooted', normal_spelled path hrooted, hslashes, settle_slash]

/-- The empty path is the working folder. -/
theorem absolute_empty (workdir : String) (hwork : isRooted workdir = true) :
    absolute workdir "" = normal workdir := by
  have hfull : workdir ≠ "" := by
    rintro rfl
    exact absurd hwork (by decide)
  rw [absolute, if_neg (by decide), join_relative workdir "" hfull (by decide),
    String.append_empty, slashAfter]
  split
  · rw [String.append_empty]
  case isFalse hend => exact normal_slash workdir hwork hend

theorem absolute_into (workdir path s : String) (hwork : isRooted workdir = true)
    (hs : IsName s) : absolute workdir (join path s) = join (absolute workdir path) s := by
  by_cases hpath : path = ""
  case neg => exact absolute_join path s hpath hs workdir hwork
  subst hpath
  have hfull : workdir ≠ "" := by
    rintro rfl
    exact absurd hwork (by decide)
  have hempty : join "" s = s := by simp [join]
  rw [absolute_empty workdir hwork, hempty, absolute, hs.isRooted, if_neg Bool.false_ne_true,
    normal_join workdir s hfull hs hwork]

/-- What begins with a slash ends before the slashes that end the rest, or is all slashes. -/
theorem dropSlashes_snoc (cs : List Char) : ∃ slashes,
    cs ++ ['/'] = dropSlashes (cs ++ ['/']) ++ '/' :: slashes ∧
    (dropSlashes (cs ++ ['/'])).getLast? ≠ some '/' := by
  have hback : (cs ++ ['/']).reverse = '/' :: cs.reverse := by simp
  have hslash : ∀ c ∈ cs.reverse.takeWhile (· = '/'), c = '/' := by
    intro c hc
    simpa using List.mem_takeWhile_imp hc
  have hall : (cs.reverse.takeWhile (· = '/')).reverse ++ ['/'] =
      '/' :: (cs.reverse.takeWhile (· = '/')).reverse := by
    rw [List.eq_replicate_of_mem hslash, List.reverse_replicate, ← List.replicate_succ',
      List.replicate_succ]
  have hdrop : dropSlashes (cs ++ ['/']) = (cs.reverse.dropWhile (· = '/')).reverse := by
    rw [dropSlashes, hback, List.dropWhile_cons_of_pos (by decide)]
  refine ⟨(cs.reverse.takeWhile (· = '/')).reverse, ?_, ?_⟩
  · rw [← hall, hdrop, ← List.append_assoc, ← List.reverse_append,
      List.takeWhile_append_dropWhile, List.reverse_reverse]
  · rw [hdrop, List.getLast?_reverse]
    intro hhead
    have hfirst := List.head?_dropWhile_not (· = '/') cs.reverse
    rw [hhead] at hfirst
    simp at hfirst

/-- The text above the last name. -/
theorem cutLast_cut (cs : List Char) : ((cutLast cs).1 = [] ∨ ∃ init, (cutLast cs).1 = init ++ ['/']) ∧
    cs = (cutLast cs).1 ++ (cutLast cs).2 := by
  constructor
  · cases hback : cs.reverse.dropWhile (· ≠ '/') with
    | nil => exact .inl (by rw [cutLast, hback]; rfl)
    | cons c rest =>
      have hfirst := List.head?_dropWhile_not (· ≠ '/') cs.reverse
      rw [hback] at hfirst
      have hc : c = '/' := by simpa using hfirst
      refine .inr ⟨rest.reverse, ?_⟩
      rw [cutLast, hback, hc, List.reverse_cons]
  · rw [cutLast, ← List.reverse_append, List.takeWhile_append_dropWhile, List.reverse_reverse]

theorem split_above (path : String) : (∀ c ∈ (split path).1.toList, c = '/') ∨
    ∃ rest, path.toList = (split path).1.toList ++ '/' :: rest ∧
      (split path).1.toList.getLast? ≠ some '/' := by
  obtain ⟨hfront, hpath⟩ := cutLast_cut path.toList
  have hsplit : (split path).1.toList = if (cutLast path.toList).1.all (· = '/')
      then (cutLast path.toList).1 else dropSlashes (cutLast path.toList).1 := by
    rw [split, String.toList_ofList]
  rw [hsplit]
  by_cases hall : (cutLast path.toList).1.all (· = '/') = true
  · rw [if_pos hall]
    exact .inl fun c hc => by simpa using List.all_eq_true.mp hall c hc
  · rw [if_neg hall]
    rcases hfront with hnil | ⟨init, hinit⟩
    · rw [hnil] at hall
      exact absurd rfl hall
    · obtain ⟨slashes, hcut, hlast⟩ := dropSlashes_snoc init
      rw [hinit] at hpath ⊢
      refine .inr ⟨slashes ++ (cutLast path.toList).2, ?_, hlast⟩
      conv_lhs => rw [hpath, hcut]
      simp

/-- The names above the last one come first in a path, if there are any. -/
theorem namesIn_above (path : String) :
    (Disk.namesIn (split path).1 = [] ∨ Disk.namesIn (split path).1 = ["."]) ∨
      (isRooted (split path).1 = isRooted path ∧
        ∃ more, Disk.namesIn path = Disk.namesIn (split path).1 ++ more) := by
  have hcases := split_above path
  generalize (split path).1 = above at hcases
  rcases hcases with hall | ⟨rest, hpath, hlast⟩
  · left
    have hspelled : above.toList = List.replicate above.toList.length '/' ++
        ['/'].intercalate (([] : List String).map String.toList) := by
      rw [List.map_nil, List.intercalate_nil, List.append_nil]
      exact List.eq_replicate_of_mem hall
    rw [Disk.namesIn, split_spelled above _ [] hspelled (by simp), List.nil_append]
    split
    · exact .inr rfl
    · exact .inl rfl
  by_cases hempty : above = ""
  · left
    left
    rw [hempty]
    decide
  right
  have hend : ¬ Text.endsWith "/" above = true := mt (endsWith_slash above).mp hlast
  obtain ⟨c, cs, hcs⟩ := List.exists_cons_of_ne_nil (String.toList_eq_nil_iff.not.mpr hempty)
  constructor
  · rw [Bool.eq_iff_iff, isRooted_iff, isRooted_iff, hpath, hcs]
    simp
  · refine ⟨(Text.split '/' (String.ofList rest)).filter (· ≠ "") ++
      if Text.endsWith "/" path then ["."] else [], ?_⟩
    rw [Disk.namesIn, Disk.namesIn, if_neg hend, List.append_nil, ← List.append_assoc,
      ← List.filter_append, Text.split, Text.split, Text.split, hpath, Text.pieces_append,
      String.toList_ofList, List.map_append]

end DocNavigation.Path
