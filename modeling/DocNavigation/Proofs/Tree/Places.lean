import DocNavigation.Proofs.Tree.WellFormed

/-!
Places in trees. A change at one place is seen below that place and nowhere beside it, and what
grows along a path is seen only on the way to its end.
-/

namespace DocNavigation.Tree

section
variable (segment : String) (f : Tree → Tree)

/-- The directory of that name, or the empty one that a change starts from. -/
def slot (ts : List Tree) : Tree :=
  (ts.find? (·.name = segment)).getD (empty segment)

theorem slot_name (ts : List Tree) : (slot segment ts).name = segment := by
  rw [slot]
  cases hc : ts.find? (·.name = segment) with
  | none => rfl
  | some c =>
    have hname := List.find?_some hc
    exact of_decide_eq_true hname

theorem find?_updateNamed_self (ts : List Tree) (hf : (f (slot segment ts)).name = segment) :
    (updateNamed segment f ts).find? (·.name = segment) = some (f (slot segment ts)) := by
  induction ts with
  | nil => simpa [updateNamed, slot] using hf
  | cons t ts ih =>
    by_cases ht : t.name = segment
    · simp only [slot, List.find?_cons, ht, decide_true, Option.getD_some] at hf ⊢
      simp [updateNamed, ht, hf]
    · simp only [slot, List.find?_cons, ht, decide_false] at hf ih ⊢
      simp [updateNamed, ht, ih hf]

theorem find?_updateNamed_other (s : String) (hs : s ≠ segment) (ts : List Tree)
    (hf : (f (slot segment ts)).name = segment) :
    (updateNamed segment f ts).find? (·.name = s) = ts.find? (·.name = s) := by
  induction ts with
  | nil =>
    have hnew : (f (empty segment)).name = segment := hf
    simp [updateNamed, hnew, Ne.symm hs]
  | cons t ts ih =>
    by_cases ht : t.name = segment
    · simp only [slot, List.find?_cons, ht, decide_true, Option.getD_some] at hf
      simp [updateNamed, ht, hf, Ne.symm hs]
    · simp only [slot, List.find?_cons, ht, decide_false] at hf ih
      simp [updateNamed, ht, ih hf, List.find?_cons]

/-- Where a change leaves the named directory as it is, it leaves all directories as they are. -/
theorem updateNamed_eq_self (ts : List Tree) (c : Tree)
    (hc : ts.find? (·.name = segment) = some c) (hf : f c = c) : updateNamed segment f ts = ts := by
  induction ts with
  | nil => cases hc
  | cons t ts ih =>
    by_cases ht : t.name = segment
    · simp only [List.find?_cons, ht, decide_true] at hc
      cases hc
      simp [updateNamed, ht, hf]
    · simp only [List.find?_cons, ht, decide_false] at hc
      simp [updateNamed, ht, ih hc]

end

theorem withDirs_dirs (t : Tree) : t.withDirs t.dirs = t := by
  cases t with
  | node n s ds fs => rfl

theorem child?_withDirs (t : Tree) (ds : List Tree) (s : String) :
    (t.withDirs ds).child? s = ds.find? (·.name = s) := rfl

theorem at?_cons (t : Tree) (s : String) (rest : List String) :
    t.at? (s :: rest) = (t.child? s).bind (·.at? rest) := by
  rw [at?]
  cases t.child? s <;> rfl

theorem at?_cons_eq_some_iff (t x : Tree) (s : String) (rest : List String) :
    t.at? (s :: rest) = some x ↔ ∃ c, t.child? s = some c ∧ c.at? rest = some x := by
  rw [at?_cons, Option.bind_eq_some_iff]

theorem slot_of_child? (t c : Tree) (s : String) (hc : t.child? s = some c) :
    slot s t.dirs = c := by
  rw [child?] at hc
  rw [slot, hc]
  rfl

/-- A change under one name, seen by name. -/
theorem child?_updateNamed (t : Tree) (s r : String) (f : Tree → Tree)
    (hf : (f (slot s t.dirs)).name = s) : (t.withDirs (updateNamed s f t.dirs)).child? r =
      if r = s then some (f (slot s t.dirs)) else t.child? r := by
  rw [child?_withDirs]
  split
  case isTrue hr =>
    rw [hr]
    exact find?_updateNamed_self s f t.dirs hf
  case isFalse hr => exact find?_updateNamed_other s f r hr t.dirs hf

/-- Following a path depends on the directories of the node alone. -/
theorem at?_congr (t u : Tree) (path : List String) (hne : path ≠ []) (h : t.dirs = u.dirs) :
    t.at? path = u.at? path := by
  cases path with
  | nil => exact absurd rfl hne
  | cons s rest => rw [at?, at?, child?, child?, h]

/-- Where a change leaves the child as it is, it leaves the node as it is. -/
theorem withDirs_updateNamed_self (t c : Tree) (s : String) (f : Tree → Tree)
    (hc : t.child? s = some c) (hf : f c = c) : t.withDirs (updateNamed s f t.dirs) = t := by
  rw [updateNamed_eq_self s f t.dirs c hc hf, withDirs_dirs]

section
variable (u : Tree)

theorem replaceAt_cons (s : String) (rest : List String) (t c : Tree) (hc : t.child? s = some c) :
    replaceAt u (s :: rest) t = t.withDirs (updateNamed s (replaceAt u rest) t.dirs) := by
  rw [replaceAt, hc]

/-- There is nothing to replace at a place that is missing. -/
theorem replaceAt_missing (path : List String) (t : Tree) (h : t.at? path = none) :
    replaceAt u path t = t := by
  induction path generalizing t with
  | nil => cases h
  | cons s rest ih =>
    cases hc : t.child? s with
    | none => rw [replaceAt, hc]
    | some c =>
      rw [at?_cons, hc, Option.bind_some] at h
      rw [replaceAt_cons u s rest t c hc]
      exact withDirs_updateNamed_self t c s _ hc (ih c h)

theorem replaceAt_self (path : List String) (t : Tree) (h : t.at? path = some u) :
    replaceAt u path t = t := by
  induction path generalizing t with
  | nil =>
    cases h
    rfl
  | cons s rest ih =>
    obtain ⟨c, hc, hrest⟩ := (at?_cons_eq_some_iff t _ s rest).mp h
    rw [replaceAt_cons u s rest t c hc]
    exact withDirs_updateNamed_self t c s _ hc (ih c hrest)

section
variable (path : List String) (t x : Tree) (hx : t.at? path = some x) (hname : u.name = x.name)

include hx hname in
theorem replaceAt_name : (replaceAt u path t).name = t.name := by
  cases path with
  | nil =>
    cases hx
    exact hname
  | cons s rest =>
    rw [replaceAt]
    split <;> rfl

include hx hname in
theorem child?_replaceAt (s r : String) (parent : Tree) (hc : parent.child? s = some t) :
    (replaceAt u (s :: path) parent).child? r =
      if r = s then some (replaceAt u path t) else parent.child? r := by
  have hslot := slot_of_child? parent t s hc
  have hnew : (replaceAt u path (slot s parent.dirs)).name = s := by
    rw [hslot, replaceAt_name u path t x hx hname, ← hslot, slot_name]
  rw [replaceAt_cons u s path parent t hc, child?_updateNamed parent s r _ hnew, hslot]

include hx hname in
/-- Below a place the new node is seen. -/
theorem at?_replaceAt (rest : List String) :
    (replaceAt u path t).at? (path ++ rest) = u.at? rest := by
  induction path generalizing t with
  | nil => rfl
  | cons s path ih =>
    obtain ⟨c, hc, hcx⟩ := (at?_cons_eq_some_iff t x s path).mp hx
    rw [List.cons_append, at?_cons, child?_replaceAt u path c x hcx hname s s t hc, if_pos rfl]
    exact ih c hcx

include hx hname in
/-- Beside a place nothing is seen of a change there. -/
theorem at?_replaceAt_beside (q : List String) (hpath : ¬ path <+: q) (hq : ¬ q <+: path) :
    (replaceAt u path t).at? q = t.at? q := by
  induction path generalizing t q with
  | nil => exact absurd List.nil_prefix hpath
  | cons s path ih =>
    cases q with
    | nil => exact absurd List.nil_prefix hq
    | cons r q =>
      obtain ⟨c, hc, hcx⟩ := (at?_cons_eq_some_iff t x s path).mp hx
      rw [at?_cons, at?_cons, child?_replaceAt u path c x hcx hname s r t hc]
      by_cases hr : r = s
      · subst hr
        rw [if_pos rfl, hc]
        apply ih c hcx
        · exact fun h => hpath (List.cons_prefix_cons.mpr ⟨rfl, h⟩)
        · exact fun h => hq (List.cons_prefix_cons.mpr ⟨rfl, h⟩)
      · rw [if_neg hr]

include hx hname in
/-- Where the new node has the places of the old one, no place is lost. -/
theorem replaceAt_places (hplaces : ∀ q, (x.at? q).isSome = true → (u.at? q).isSome = true)
    (q : List String) (hq : (t.at? q).isSome = true) : ((replaceAt u path t).at? q).isSome = true := by
  -- a place lies below the replaced node, above it or beside it
  by_cases hbelow : path <+: q
  · obtain ⟨rest, rfl⟩ := hbelow
    rw [at?_replaceAt u path t x hx hname rest]
    rw [at?_append, hx, Option.bind_some] at hq
    exact hplaces rest hq
  by_cases habove : q <+: path
  · obtain ⟨rest, rfl⟩ := habove
    have hself := at?_replaceAt u (q ++ rest) t x hx hname []
    rw [List.append_nil, at?_append] at hself
    obtain ⟨y, hy, -⟩ := Option.bind_eq_some_iff.mp hself
    rw [hy]
    rfl
  · rw [at?_replaceAt_beside u path t x hx hname q hbelow habove]
    exact hq

end

end

section
variable (f : Tree → Tree) (hname : ∀ t, (f t).name = t.name) (hdirs : ∀ t, (f t).dirs = t.dirs)

include hname hdirs in
/-- Growing a path is seen only on the way to its end. -/
theorem at?_grow (path q : List String) (t : Tree) (h : ¬ q <+: path) :
    (grow f path t).at? q = t.at? q := by
  induction path generalizing t q with
  | nil =>
    apply at?_congr _ _ q _ (hdirs t)
    rintro rfl
    exact h List.nil_prefix
  | cons s path ih =>
    cases q with
    | nil => exact absurd List.nil_prefix h
    | cons r q =>
      have hnew : (grow f path (slot s t.dirs)).name = s := by
        rw [grow_name f hname, slot_name]
      rw [grow, at?_cons, at?_cons, child?_updateNamed t s r _ hnew]
      by_cases hr : r = s
      · subst hr
        have hrest : ¬ q <+: path := fun hq => h (List.cons_prefix_cons.mpr ⟨rfl, hq⟩)
        rw [if_pos rfl, Option.bind_some, ih q _ hrest]
        cases hc : t.child? r with
        | some c => rw [slot_of_child? t c r hc, Option.bind_some]
        | none =>
          -- what is created there leads along the path and nowhere else
          rw [child?] at hc
          rw [slot, hc]
          cases q with
          | nil => exact absurd List.nil_prefix hrest
          | cons a q => rfl
      · rw [if_neg hr]

end

theorem grow_id_of_at? (path : List String) (t x : Tree) (h : t.at? path = some x) :
    grow id path t = t := by
  induction path generalizing t with
  | nil => rfl
  | cons s rest ih =>
    obtain ⟨c, hc, hrest⟩ := (at?_cons_eq_some_iff t _ s rest).mp h
    exact withDirs_updateNamed_self t c s _ hc (ih c hrest)

end DocNavigation.Tree
