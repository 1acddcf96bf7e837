import DocNavigation.Proofs.Path.Plain

/-!
Normal forms of rooted paths: they are their own normal forms, and a name at the end of a path is at
the end of its normal form.
-/

namespace DocNavigation.Path

/-- What one part does to the names settled so far, the last of them first. -/
def settleOne (rooted : Bool) (done : List String) (s : String) : List String :=
  if s = "" ∨ s = "." then done
  else if s ≠ ".." then s :: done
  else match done with
    | [] => if rooted then [] else [s]
    | d :: above => if d = ".." then s :: done else above

section
variable (rooted : Bool) (done parts : List String)

theorem settle_eq_foldl :
    settle rooted done parts = (parts.foldl (settleOne rooted) done).reverse := by
  induction parts generalizing done with
  | nil => cases done <;> rfl
  | cons s parts ih =>
    rw [List.foldl_cons, ← ih, settle.eq_def, settleOne.eq_def]
    by_cases hnone : s = "" ∨ s = "."
    · simp only [if_pos hnone]
    by_cases hdots : s ≠ ".."
    · simp only [if_neg hnone, if_pos hdots]
    · simp only [if_neg hnone, if_neg hdots]
      cases done <;> rfl

theorem settle_append (rest : List String) :
    settle rooted done (parts ++ rest) = settle rooted (settle rooted done parts).reverse rest := by
  rw [settle_eq_foldl, settle_eq_foldl, settle_eq_foldl, List.reverse_reverse, List.foldl_append]

/-- Empty parts, between two slashes, count for nothing. -/
theorem settle_filter : settle rooted done (parts.filter (· ≠ "")) = settle rooted done parts := by
  rw [settle_eq_foldl, settle_eq_foldl, List.foldl_filter]
  refine congrArg List.reverse (List.foldl_ext _ _ _ fun done s _ => ?_)
  by_cases hempty : s = ""
  · simp [hempty, settleOne]
  · simp [hempty]

theorem settle_names (h : ∀ s ∈ parts, IsName s) :
    settle rooted done parts = done.reverse ++ parts := by
  induction parts generalizing done with
  | nil => rw [settle_eq_foldl, List.append_nil, List.foldl_nil]
  | cons s parts ih =>
    rw [List.forall_mem_cons] at h
    have hone : settleOne rooted done s = s :: done := by
      rw [settleOne.eq_def, if_neg (not_or.mpr ⟨h.1.full, h.1.dot⟩), if_pos h.1.dots]
    rw [settle_eq_foldl, List.foldl_cons, hone, ← settle_eq_foldl, ih _ h.2, List.reverse_cons,
      List.append_assoc]
    rfl

end

theorem leadingSlashes_two (cs : List Char) :
    leadingSlashes ('/' :: cs) = 1 ∨ leadingSlashes ('/' :: cs) = 2 := by
  unfold leadingSlashes
  split
  · simp_all
  · exact .inr rfl
  · exact .inl rfl

/-- The slashes before the first name. -/
theorem leadingSlashes_spelled (slashes : Nat) (names : List String)
    (hslashes : slashes = 1 ∨ slashes = 2) (hnames : ∀ s ∈ names, IsName s) :
    leadingSlashes (List.replicate slashes '/' ++ ['/'].intercalate (names.map String.toList)) =
      slashes := by
  have hrest : (['/'].intercalate (names.map String.toList)).takeWhile (· = '/') = [] := by
    cases names with
    | nil => rfl
    | cons s names =>
      rw [List.forall_mem_cons] at hnames
      cases hs : s.toList with
      | nil => exact absurd (String.toList_eq_nil_iff.mp hs) hnames.1.full
      | cons c cs =>
        have hc : c ≠ '/' := by
          intro heq
          exact hnames.1.slash (by simp [hs, heq])
        cases names with
        | nil => simp [hs, hc]
        | cons t names => simp [hs, hc, List.intercalate]
  have hall : ∀ c ∈ List.replicate slashes '/', decide (c = '/') = true := by
    intro c hc
    exact decide_eq_true (List.eq_of_mem_replicate hc)
  rw [leadingSlashes, List.takeWhile_append_of_pos hall, hrest, List.append_nil,
    List.length_replicate]
  rcases hslashes with rfl | rfl
  · rfl
  · rfl

/-- A path that is spelled as a normal form is one. -/
theorem normal_of_spelled (path : String) (slashes : Nat) (names : List String)
    (hslashes : slashes = 1 ∨ slashes = 2)
    (hspelled : path.toList = List.replicate slashes '/' ++
      ['/'].intercalate (names.map String.toList))
    (hnames : ∀ s ∈ names, IsName s) : normal path = path := by
  have hrooted : isRooted path = true :=
    Plain.isRooted path names ⟨⟨slashes, by omega, hspelled⟩, hnames⟩
  apply String.toList_inj.mp
  rw [normal_spelled path hrooted, ← settle_filter, split_spelled path slashes names hspelled hnames,
    settle_names _ _ _ hnames, hspelled, leadingSlashes_spelled slashes names hslashes hnames]
  rfl

theorem normal_normal (path : String) (h : isRooted path = true) :
    normal (normal path) = normal path := by
  obtain ⟨cs, hcs⟩ := (isRooted_iff path).mp h
  have htwo := leadingSlashes_two cs
  rw [← hcs] at htwo
  exact normal_of_spelled _ _ _ htwo (normal_spelled path h) (isName_settle path)

theorem absolute_absolute (workdir workdir' path : String) (h : isRooted workdir = true) :
    absolute workdir' (absolute workdir path) = absolute workdir path := by
  rw [absolute, if_pos (isRooted_absolute workdir path h)]
  exact normal_normal _ (isRooted_from workdir path h)

end DocNavigation.Path
