import DocNavigation.Pattern.Read
import Mathlib.Data.List.Forall2

/-!
What the reader makes of a text in front of any other text: characters and ranges within brackets,
single items, repetitions of any character, and atomic groups.
-/

namespace DocNavigation.Pattern

/-- The same progress with another text still to be read. -/
def Progress.at (p : Progress) (cs : List Char) : Progress := { p with rest := cs }

section
variable {α β : Type} (p : Progress) (cs : List Char)

@[simp] theorem Progress.rest_at : (p.at cs).rest = cs := rfl

@[simp] theorem Progress.at_at (ds : List Char) : (p.at cs).at ds = p.at ds := rfl

theorem run_bind (x : Read α) (f : α → Read β) :
    (x >>= f) p = (x p).bind fun r => f r.1 r.2 := rfl

theorem run_bind_ok (x : Read α) (f : α → Read β) (a : α) (p' : Progress)
    (h : x p = .ok (a, p')) : (x >>= f) p = f a p' := by
  rw [run_bind, h]
  rfl

theorem run_map (f : α → β) (x : Read α) (a : α) (p' : Progress) (h : x p = .ok (a, p')) :
    (f <$> x) p = .ok (f a, p') :=
  run_bind_ok p x (fun a => pure (f a)) a p' h

theorem run_pure (a : α) : (pure a : Read α) p = .ok (a, p) := rfl

theorem run_rest : Read.rest p = .ok (p.rest, p) := rfl

theorem run_setRest : Read.setRest cs p = .ok ((), p.at cs) := rfl

theorem skip?_cons (c : Char) : Read.skip? c (p.at (c :: cs)) = .ok (true, p.at cs) := by
  unfold Read.skip?
  simp only [run_bind, run_rest, Except.bind, Progress.rest_at, if_true]
  rfl

theorem skip?_of_head (c : Char) (h : cs.head? ≠ some c) :
    Read.skip? c (p.at cs) = .ok (false, p.at cs) := by
  unfold Read.skip?
  simp only [run_bind, run_rest, Except.bind, Progress.rest_at]
  cases cs with
  | nil => rfl
  | cons d cs =>
    have hne : c ≠ d := fun hcd => h (by rw [hcd]; rfl)
    simp only [if_neg hne]
    rfl

end

/-- How a character is spelled within brackets. -/
def SpellsMember (t : List Char) (c : Char) : Prop :=
  (t = [c] ∧ c ≠ '\\') ∨ (t = ['\\', c] ∧ c ∈ ['\\', '-', '&', '~', '|', '^', '['])

/-- How an item is spelled within brackets. A closing bracket cannot end a range. -/
def SpellsItem (t : List Char) : SetItem → Prop
  | .code n => ∃ c, n = c.toNat ∧ SpellsMember t c
  | .range lo hi => ∃ a b c d, t = a ++ '-' :: b ∧ lo = c.toNat ∧ hi = d.toNat ∧
      SpellsMember a c ∧ SpellsMember b d ∧ d ≠ ']' ∧ lo ≤ hi
  | .category .. => False

section
variable (p : Progress)

theorem setMember_spelled (t more : List Char) (c : Char) (h : SpellsMember t c) :
    ∃ d ds, t = d :: ds ∧ setMember d (p.at (ds ++ more)) = .ok (.code c.toNat, p.at more) := by
  rcases h with ⟨rfl, hc⟩ | ⟨rfl, hc⟩
  · refine ⟨c, [], rfl, ?_⟩
    rw [setMember, if_neg hc]
    rfl
  · refine ⟨'\\', [c], rfl, ?_⟩
    simp only [List.mem_cons, List.not_mem_nil, or_false] at hc
    rcases hc with rfl | rfl | rfl | rfl | rfl | rfl | rfl <;> rfl

/-- An item is read unless its first character is a bracket that closes. -/
theorem setItems_item (fuel : Nat) (acc : List SetItem) (t more : List Char) (item : SetItem)
    (ht : SpellsItem t item) (hclose : acc ≠ [] → t.head? ≠ some ']')
    (hmore : more.head? ≠ some '-') :
    setItems (fuel + 1) acc (p.at (t ++ more)) = setItems fuel (item :: acc) (p.at more) := by
  have hopen : ∀ d ds, t = d :: ds → ¬ (d = ']' ∧ acc ≠ []) := by
    rintro d ds rfl ⟨rfl, hacc⟩
    exact hclose hacc rfl
  rw [setItems]
  simp only [run_bind, run_rest, Except.bind, Progress.rest_at]
  cases item with
  | code n =>
    obtain ⟨c, rfl, hc⟩ := ht
    obtain ⟨d, ds, rfl, hd⟩ := setMember_spelled p t more c hc
    simp only [List.cons_append, run_bind, run_setRest, Except.bind, Progress.at_at,
      if_neg (hopen d ds rfl), hd, skip?_of_head p more '-' hmore]
    rfl
  | range lo hi =>
    obtain ⟨a, b, c, e, rfl, rfl, rfl, hc, he, hbracket, hle⟩ := ht
    obtain ⟨d, ds, rfl, hd⟩ := setMember_spelled p a ('-' :: (b ++ more)) c hc
    obtain ⟨f, fs, rfl, hf⟩ := setMember_spelled p b more e he
    have hfirst : f ≠ ']' := by
      rintro rfl
      rcases he with ⟨he, -⟩ | ⟨he, -⟩
      · cases he
        exact hbracket rfl
      · cases he
    have hnot := hopen d (ds ++ '-' :: f :: fs) rfl
    simp only [List.cons_append, List.append_assoc, run_bind, run_setRest, Except.bind,
      Progress.at_at, if_neg hnot] at hd ⊢
    simp only [hd, skip?_cons, if_true, run_bind, run_rest, run_setRest, Except.bind,
      Progress.rest_at, Progress.at_at, if_neg hfirst, hf, if_pos hle]
  | category c negated => exact ht.elim

/-- Neither a closing bracket nor the hyphen of a range. -/
def Clean (t : List Char) : Prop :=
  t.head? ≠ some ']' ∧ t.head? ≠ some '-'

theorem SpellsItem.ne_nil (t : List Char) (item : SetItem) (h : SpellsItem t item) : t ≠ [] := by
  rintro rfl
  cases item with
  | code n =>
    obtain ⟨c, -, ⟨h, -⟩ | ⟨h, -⟩⟩ := h <;> cases h
  | range lo hi =>
    obtain ⟨a, b, c, d, h, -⟩ := h
    simp at h
  | category c negated => exact h

theorem head?_of_spelled (t more : List Char) (item : SetItem) (h : SpellsItem t item) :
    (t ++ more).head? = t.head? := by
  cases t with
  | nil => exact absurd rfl (SpellsItem.ne_nil [] item h)
  | cons c t => rfl

/-- What comes after an item is no dash. -/
theorem head?_of_clean (ts : List (List Char)) (items : List SetItem) (more : List Char)
    (hts : List.Forall₂ SpellsItem ts items) (hclean : ∀ t ∈ ts, Clean t) :
    (ts.flatten ++ ']' :: more).head? ≠ some '-' := by
  cases hts with
  | nil => simp
  | @cons t item ts items ht _ =>
    rw [List.flatten_cons, List.append_assoc, head?_of_spelled t _ item ht]
    exact (hclean t (List.mem_cons_self ..)).2

theorem setItems_rest (fuel : Nat) (acc : List SetItem) (ts : List (List Char))
    (items : List SetItem) (more : List Char) (hts : List.Forall₂ SpellsItem ts items)
    (hclean : ∀ t ∈ ts, Clean t) (hacc : acc ≠ []) (hfuel : items.length < fuel) :
    setItems fuel acc (p.at (ts.flatten ++ ']' :: more)) =
      .ok (acc.reverse ++ items, p.at more) := by
  induction hts generalizing fuel acc with
  | nil =>
    obtain ⟨fuel, rfl⟩ := Nat.exists_eq_succ_of_ne_zero (Nat.ne_of_gt hfuel)
    rw [setItems]
    simp only [run_bind, run_rest, run_setRest, Except.bind, Progress.rest_at, Progress.at_at,
      List.flatten_nil, List.nil_append, hacc, ne_eq, not_false_eq_true, and_self, if_true, run_pure,
      List.append_nil]
  | @cons t item ts items ht hts ih =>
    obtain ⟨fuel, rfl⟩ := Nat.exists_eq_succ_of_ne_zero (Nat.ne_of_gt (Nat.zero_lt_of_lt hfuel))
    rw [List.forall_mem_cons] at hclean
    have hnext := head?_of_clean ts items more hts hclean.2
    rw [List.flatten_cons, List.append_assoc,
      setItems_item p fuel acc t _ item ht (fun _ => hclean.1.1) hnext,
      ih fuel (item :: acc) hclean.2 (by simp) (by simpa using hfuel), List.reverse_cons,
      List.append_assoc]
    rfl

/-- The items of a set, of which only the first may begin with a sign that otherwise means
something. -/
theorem setItems_spelled (ts : List (List Char)) (items : List SetItem) (more : List Char)
    (hts : List.Forall₂ SpellsItem ts items) (hclean : ∀ t ∈ ts.tail, Clean t)
    (hitems : items ≠ []) (fuel : Nat) (hfuel : items.length < fuel) :
    setItems fuel [] (p.at (ts.flatten ++ ']' :: more)) = .ok (items, p.at more) := by
  cases hts with
  | nil => exact absurd rfl hitems
  | @cons t item ts items ht hts =>
    obtain ⟨fuel, rfl⟩ := Nat.exists_eq_succ_of_ne_zero (Nat.ne_of_gt (Nat.zero_lt_of_lt hfuel))
    have hnext := head?_of_clean ts items more hts hclean
    rw [List.flatten_cons, List.append_assoc, setItems_item p fuel [] t _ item ht (by simp) hnext]
    exact setItems_rest p fuel [item] ts items more hts hclean (by simp) (by simpa using hfuel)

theorem length_le_flatten (ts : List (List Char)) (items : List SetItem)
    (hts : List.Forall₂ SpellsItem ts items) : items.length ≤ ts.flatten.length := by
  induction hts with
  | nil => simp
  | @cons t item ts items ht _ ih =>
    have hpos := List.length_pos_iff.mpr (SpellsItem.ne_nil t item ht)
    rw [List.flatten_cons, List.length_append, List.length_cons]
    omega

theorem setNode_spelled (m : Modes) (negated : Bool) (ts : List (List Char)) (items : List SetItem)
    (more : List Char) (hts : List.Forall₂ SpellsItem ts items) (hclean : ∀ t ∈ ts.tail, Clean t)
    (hitems : items ≠ []) (hsign : negated = false → ts.flatten.head? ≠ some '^') :
    setNode m (p.at ((if negated then ['^'] else []) ++ (ts.flatten ++ ']' :: more))) =
      .ok (.set ⟨items, negated, m.ignoreCase, m.ascii⟩, p.at more) := by
  have hlength := length_le_flatten ts items hts
  have hread := setItems_spelled p ts items more hts hclean hitems
    (ts.flatten ++ ']' :: more).length (by rw [List.length_append, List.length_cons]; omega)
  have hskip : Read.skip? '^'
      (p.at ((if negated then ['^'] else []) ++ (ts.flatten ++ ']' :: more))) =
        .ok (negated, p.at (ts.flatten ++ ']' :: more)) := by
    cases negated with
    | true => exact skip?_cons p _ '^'
    | false =>
      refine skip?_of_head p _ '^' ?_
      have hfull : ts.flatten ≠ [] := by
        rintro hnil
        rw [hnil] at hlength
        exact hitems (List.length_eq_zero_iff.mp (Nat.le_zero.mp hlength))
      obtain ⟨c, cs, hcs⟩ := List.exists_cons_of_ne_nil hfull
      have hhead := hsign rfl
      rw [hcs] at hhead ⊢
      exact hhead
  rw [setNode]
  simp only [run_bind, hskip, run_rest, Except.bind, Progress.rest_at, hread]
  rfl

/-- The modes within a group in which a dot stands for any character. -/
def dotted : Modes := { dotAll := true }

/-- The text does not begin with a sign that would belong to a repetition before it. -/
def Calm (cs : List Char) : Prop :=
  cs.head? ≠ some '?' ∧ cs.head? ≠ some '+'

/-- The text is read as these items, whatever stands before it and, if calm, after it. -/
structure Reads (t : List Char) (ns : List Node) : Prop where
  calm : ∀ more, Calm more → Calm (t ++ more)
  fixed : ∀ n ∈ ns, n.lookbehindsFixed = true
  items : ∀ (p : Progress) (fuel : Nat) (first : Bool) (acc : List Node) (more : List Char),
    Calm more → 4 * t.length + 4 ≤ fuel → ∃ left, fuel ≤ left + 4 * t.length ∧
      readSequence fuel first dotted acc (p.at (t ++ more)) =
        readSequence left first dotted (ns.reverse ++ acc) (p.at more)

theorem Reads.nil : Reads [] [] :=
  ⟨fun _ h => h, nofun, fun _ fuel _ _ _ _ _ => ⟨fuel, Nat.le_refl _, rfl⟩⟩

theorem Reads.append (t t' : List Char) (ns ns' : List Node) (h : Reads t ns) (h' : Reads t' ns') :
    Reads (t ++ t') (ns ++ ns') := by
  refine ⟨fun more hmore => ?_, fun n hn => ?_, fun p fuel first acc more hmore hfuel => ?_⟩
  · rw [List.append_assoc]
    exact h.calm _ (h'.calm more hmore)
  · exact (List.mem_append.mp hn).elim (h.fixed n) (h'.fixed n)
  -- no part takes more than four steps for a character, so that the second has fuel left
  · rw [List.length_append] at hfuel ⊢
    obtain ⟨left, hleft, hread⟩ :=
      h.items p fuel first acc (t' ++ more) (h'.calm more hmore) (by omega)
    obtain ⟨left', hleft', hread'⟩ :=
      h'.items p left first (ns.reverse ++ acc) more hmore (by omega)
    refine ⟨left', by omega, ?_⟩
    rw [List.append_assoc, hread, hread', List.reverse_append, List.append_assoc]

theorem Reads.flatMap {α : Type} (text : α → List Char) (node : α → Node) (as : List α)
    (h : ∀ a ∈ as, Reads (text a) [node a]) : Reads (as.flatMap text) (as.map node) := by
  induction as with
  | nil => exact .nil
  | cons a as ih =>
    rw [List.forall_mem_cons] at h
    exact .append _ _ _ _ h.1 (ih h.2)

end

/-- An item that takes one step, and its reader at most seven. -/
theorem Reads.one (t : List Char) (n : Node) (hne : t ≠ []) (hcalm : Calm t)
    (hfixed : n.lookbehindsFixed = true)
    (hstep : ∀ (p : Progress) fuel first acc more, readSequence (fuel + 8) first dotted acc (p.at (t ++ more)) =
      readSequence (fuel + 7) first dotted (n :: acc) (p.at more)) : Reads t [n] := by
  refine ⟨fun more _ => ?_, by simpa using hfixed, fun p fuel first acc more _ hfuel => ?_⟩
  · cases t with
    | nil => exact absurd rfl hne
    | cons c t => exact hcalm
  · have hpos := List.length_pos_iff.mpr hne
    obtain ⟨fuel, rfl⟩ := Nat.exists_eq_add_of_le' (show 8 ≤ fuel by omega)
    exact ⟨fuel + 7, by omega, hstep p fuel first acc more⟩

theorem Reads.plain (c : Char) (hc : c ∉ ['(', ')', '[', '\x7b', '?', '*', '+', '|', '\\']) :
    Reads [c] [plainNode dotted c] := by
  simp only [List.mem_cons, List.not_mem_nil, or_false, not_or] at hc
  obtain ⟨hopen, hclose, hbracket, hbrace, hquestion, hstar, hplus, hbar, hescape⟩ := hc
  refine .one [c] _ (by simp) ⟨by simpa using hquestion, by simpa using hplus⟩ ?_ ?_
  · unfold plainNode
    split
    · rfl
    split
    · rfl
    split <;> rfl
  · intro p fuel first acc more
    rw [readSequence]
    simp only [run_bind, run_rest, run_setRest, Except.bind, Progress.rest_at, Progress.at_at,
      List.singleton_append, hbar, hclose, or_self, if_false, dotted, Bool.false_and, hescape,
      hbracket, hopen, hstar, hplus, hquestion, hbrace, Bool.false_eq_true]

section
variable (p : Progress) (fuel : Nat) (first : Bool) (acc : List Node) (cs : List Char)

theorem readSequence_escape : readSequence (fuel + 1) first dotted acc (p.at ('\\' :: cs)) =
    (escapeNode dotted (p.at cs)).bind fun r => readSequence fuel first dotted (r.1 :: acc) r.2 := by
  rw [readSequence]
  rfl

theorem readSequence_set : readSequence (fuel + 1) first dotted acc (p.at ('[' :: cs)) =
    (setNode dotted (p.at cs)).bind fun r => readSequence fuel first dotted (r.1 :: acc) r.2 := by
  rw [readSequence]
  rfl

theorem readSequence_group (n : Node) (p' : Progress)
    (h : readGroup fuel (first && acc.isEmpty) dotted (p.at cs) = .ok (some n, p')) :
    readSequence (fuel + 1) first dotted acc (p.at ('(' :: cs)) =
      readSequence fuel first dotted (n :: acc) p' := by
  rw [readSequence]
  change (readGroup fuel (first && acc.isEmpty) dotted (p.at cs)).bind _ = _
  rw [h]
  rfl

theorem readSequence_close : readSequence (fuel + 1) first dotted acc (p.at (')' :: cs)) =
    .ok (sequence acc.reverse, p.at (')' :: cs)) := by
  rw [readSequence]
  rfl

theorem readAlternatives_close (n : Node) (more : List Char)
    (h : readSequence fuel false dotted [] (p.at cs) = .ok (n, p.at (')' :: more))) :
    readAlternatives (fuel + 1) false false dotted (p.at cs) = .ok (n, p.at (')' :: more)) := by
  rw [readAlternatives]
  change (readSequence fuel false dotted [] (p.at cs)).bind _ = _
  rw [h]
  rfl

end

/-- A sign after a backslash stands for itself. -/
theorem Reads.escaped (c : Char) (hc : c ∈ "()[]\x7b\x7d?*+-|^$\\.&~# \t\n\r\x0b\x0c".toList) :
    Reads ['\\', c] [literal dotted c.toNat] := by
  have hescape : ∀ (p : Progress) more, escapeNode dotted (p.at (c :: more)) =
      .ok (literal dotted c.toNat, p.at more) := by
    intro p more
    have hsigns : "()[]\x7b\x7d?*+-|^$\\.&~# \t\n\r\x0b\x0c".toList = ['(', ')', '[', ']', '\x7b', '\x7d',
      '?', '*', '+', '-', '|', '^', '$', '\\', '.', '&', '~', '#', ' ', '\t', '\n', '\r', '\x0b',
      '\x0c'] := by decide
    rw [hsigns] at hc
    simp only [List.mem_cons, List.not_mem_nil, or_false] at hc
    rcases hc with rfl | rfl | rfl | rfl | rfl | rfl | rfl | rfl | rfl | rfl | rfl | rfl | rfl | rfl |
      rfl | rfl | rfl | rfl | rfl | rfl | rfl | rfl | rfl | rfl <;> rfl
  refine .one _ _ (by simp) ⟨by simp, by simp⟩ rfl fun p fuel first acc more => ?_
  rw [List.cons_append, readSequence_escape, List.singleton_append, hescape]
  rfl

theorem Reads.set (negated : Bool) (ts : List (List Char)) (items : List SetItem)
    (hts : List.Forall₂ SpellsItem ts items) (hclean : ∀ t ∈ ts.tail, Clean t)
    (hitems : items ≠ []) (hsign : negated = false → ts.flatten.head? ≠ some '^') :
    Reads ('[' :: ((if negated then ['^'] else []) ++ (ts.flatten ++ [']'])))
      [.set ⟨items, negated, false, false⟩] := by
  refine .one _ _ (by simp) ⟨by simp, by simp⟩ rfl fun p fuel first acc more => ?_
  have hread := setNode_spelled p dotted negated ts items more hts hclean hitems hsign
  rw [List.cons_append, List.append_assoc, List.append_assoc, List.singleton_append,
    readSequence_set, hread]
  rfl

/-- A look ahead that never holds. -/
theorem Reads.never : Reads "(?!)".toList [.look true true .empty] := by
  have htext : "(?!)".toList = ['(', '?', '!', ')'] := by decide
  rw [htext]
  refine .one _ _ (by simp) ⟨by simp, by simp⟩ rfl fun p fuel first acc more => ?_
  refine readSequence_group p (fuel + 7) first acc _ _ (p.at more) ?_
  have hbody := readAlternatives_close p (fuel + 4) (')' :: more) _ more
    (readSequence_close p (fuel + 3) false [] more)
  have hahead : readAhead (fuel + 6) true dotted (p.at (')' :: more)) =
      .ok (.look true true .empty, p.at more) := by
    rw [readAhead, run_bind_ok _ _ _ _ _ hbody]
    rfl
  rw [readGroup]
  exact run_map _ some _ _ _ hahead

/-- Any characters, as many as can be. -/
theorem Reads.all : Reads ".*".toList [.rep 0 none .greedy (.any true)] := by
  have htext : ".*".toList = ['.', '*'] := by decide
  rw [htext]
  refine ⟨fun more _ => ⟨by simp, by simp⟩, by simp [Node.lookbehindsFixed],
    fun p fuel first acc more hmore hfuel => ?_⟩
  obtain ⟨fuel, rfl⟩ := Nat.exists_eq_add_of_le' (show 2 ≤ fuel by simp at hfuel; omega)
  refine ⟨fuel, by simp, ?_⟩
  rw [readSequence]
  change readSequence (fuel + 1) first dotted (.any true :: acc) (p.at ('*' :: more)) = _
  have hgreed : readGreed (p.at more) = .ok (.greedy, p.at more) := by
    rw [readGreed, run_bind_ok _ _ _ _ _ (skip?_of_head p more _ hmore.1)]
    exact run_bind_ok _ _ _ _ _ (skip?_of_head p more _ hmore.2)
  have hrepeat : repeatLast 0 none (.any true :: acc) (p.at more) =
      .ok (.rep 0 none .greedy (.any true) :: acc, p.at more) := by
    exact run_bind_ok _ _ _ _ _ hgreed
  rw [readSequence]
  exact run_bind_ok _ _ _ _ _ hrepeat

/-- Any characters, as few as can be. -/
theorem Reads.few : Reads ".*?".toList [.rep 0 none .lazy (.any true)] := by
  have htext : ".*?".toList = ['.', '*', '?'] := by decide
  rw [htext]
  refine ⟨fun more _ => ⟨by simp, by simp⟩, by simp [Node.lookbehindsFixed],
    fun p fuel first acc more hmore hfuel => ?_⟩
  obtain ⟨fuel, rfl⟩ := Nat.exists_eq_add_of_le' (show 2 ≤ fuel by simp at hfuel; omega)
  refine ⟨fuel, by simp, ?_⟩
  rw [readSequence]
  change readSequence (fuel + 1) first dotted (.any true :: acc) (p.at ('*' :: '?' :: more)) = _
  rw [readSequence]
  rfl

theorem lookbehindsFixed_sequence (ns : List Node) (h : ∀ n ∈ ns, n.lookbehindsFixed = true) :
    (sequence ns).lookbehindsFixed = true := by
  induction ns with
  | nil => rfl
  | cons n ns ih =>
    rw [List.forall_mem_cons] at h
    cases ns with
    | nil => exact h.1
    | cons m ns => exact Bool.and_eq_true_iff.mpr ⟨h.1, ih h.2⟩

/-- What is between parentheses is read up to the closing one. -/
theorem Reads.enclosed (t : List Char) (ns : List Node) (h : Reads t ns) (p : Progress)
    (fuel : Nat) (more : List Char) (hfuel : 4 * t.length + 5 ≤ fuel) :
    readAlternatives fuel false false dotted (p.at (t ++ ')' :: more)) =
      .ok (sequence ns, p.at (')' :: more)) := by
  obtain ⟨fuel, rfl⟩ := Nat.exists_eq_add_of_le' (show 1 ≤ fuel by omega)
  obtain ⟨left, hleft, hread⟩ :=
    h.items p fuel false [] (')' :: more) ⟨by simp, by simp⟩ (by omega)
  obtain ⟨left, rfl⟩ := Nat.exists_eq_add_of_le' (show 1 ≤ left by omega)
  refine readAlternatives_close p fuel _ _ more ?_
  rw [hread, readSequence_close, List.append_nil, List.reverse_reverse]

theorem Reads.atomic (t : List Char) (ns : List Node) (h : Reads t ns) :
    Reads ("(?>".toList ++ (t ++ [')'])) [.atomic (sequence ns)] := by
  have htext : "(?>".toList = ['(', '?', '>'] := by decide
  rw [htext]
  refine ⟨fun more _ => ⟨by simp, by simp⟩, ?_, fun p fuel first acc more hmore hfuel => ?_⟩
  · simpa [Node.lookbehindsFixed] using lookbehindsFixed_sequence ns h.fixed
  · simp only [List.length_append, List.length_cons, List.length_nil] at hfuel ⊢
    obtain ⟨fuel, rfl⟩ := Nat.exists_eq_add_of_le' (show 2 ≤ fuel by omega)
    refine ⟨fuel + 1, by omega, ?_⟩
    refine readSequence_group p (fuel + 1) first acc _ _ (p.at more) ?_
    have hbody := h.enclosed t ns p fuel more (by omega)
    rw [readGroup]
    change (Read.setRest ((t ++ [')']) ++ more) >>= fun _ =>
      readAlternatives fuel false false dotted >>= fun n =>
        Read.expect ')' >>= fun _ => pure (some (Node.atomic n))) (p.at _) = _
    rw [run_bind_ok _ _ _ _ _ (run_setRest _ _), Progress.at_at, List.append_assoc,
      List.singleton_append, run_bind_ok _ _ _ _ _ hbody]
    rfl

/-- The modes of the group are set by its first letters. -/
theorem readGroup_dotted (t : List Char) (ns : List Node) (h : Reads t ns) (p : Progress)
    (fuel : Nat) (first : Bool) (more : List Char) (hfuel : 4 * t.length + 5 ≤ fuel) :
    readGroup (fuel + 1) first {} (p.at ('?' :: 's' :: ':' :: (t ++ ')' :: more))) =
      .ok (some (.group none (sequence ns)), p.at more) := by
  have hflags : readFlags (p.at ('s' :: ':' :: (t ++ ')' :: more))) =
      .ok (.scoped ['s'] [], p.at (t ++ ')' :: more)) := rfl
  have hbody := h.enclosed t ns p fuel more hfuel
  rw [readGroup, run_bind_ok _ _ _ _ _ (run_rest _)]
  change (Read.setRest ('s' :: ':' :: (t ++ ')' :: more)) >>= _) (p.at _) = _
  rw [run_bind_ok _ _ _ _ _ (run_setRest _ _), Progress.at_at, run_bind_ok _ _ _ _ _ hflags]
  change (readAlternatives fuel false false dotted >>= _) _ = _
  rw [run_bind_ok _ _ _ _ _ hbody]
  rfl

/-- The end of the text is read after whatever stands before it. -/
theorem readSequence_textEnd (p : Progress) (fuel : Nat) (first : Bool) (acc : List Node) :
    readSequence (fuel + 2) first {} acc (p.at ['\\', 'Z']) =
      .ok (sequence (.anchor .textEnd :: acc).reverse, p.at []) := by
  rw [readSequence]
  change readSequence (fuel + 1) first {} (.anchor .textEnd :: acc) (p.at []) = _
  rw [readSequence]
  rfl

/-- A group in which a dot stands for any character, and the end of the text after it. -/
theorem Reads.whole (t : List Char) (ns : List Node) (h : Reads t ns) :
    read (String.ofList ("(?s:".toList ++ t ++ ")\\Z".toList)) =
      .ok (.seq (.group none (sequence ns)) (.anchor .textEnd)) := by
  have htext : "(?s:".toList ++ t ++ ")\\Z".toList =
      '(' :: '?' :: 's' :: ':' :: (t ++ ')' :: ['\\', 'Z']) := by
    have hopen : "(?s:".toList = ['(', '?', 's', ':'] := by decide
    have hclose : ")\\Z".toList = [')', '\\', 'Z'] := by decide
    rw [hopen, hclose]
    simp
  have hlength : ("(?s:".toList ++ t ++ ")\\Z".toList).length = t.length + 7 := by
    rw [htext]
    simp
  let p : Progress := { rest := [] }
  have hgroup := readGroup_dotted t ns h p (4 * (t.length + 7) + 1) true ['\\', 'Z'] (by omega)
  have hsequence : readSequence (4 * (t.length + 7) + 3) true {} []
      (p.at ('(' :: '?' :: 's' :: ':' :: (t ++ ')' :: ['\\', 'Z']))) =
        .ok (.seq (.group none (sequence ns)) (.anchor .textEnd), p.at []) := by
    rw [readSequence]
    change (readGroup (4 * (t.length + 7) + 2) true {}
      (p.at ('?' :: 's' :: ':' :: (t ++ ')' :: ['\\', 'Z'])))).bind _ = _
    rw [hgroup]
    exact readSequence_textEnd p _ true _
  have halternatives : readAlternatives (4 * (t.length + 7) + 4) true true {}
      (p.at ('(' :: '?' :: 's' :: ':' :: (t ++ ')' :: ['\\', 'Z']))) =
        .ok (.seq (.group none (sequence ns)) (.anchor .textEnd), p.at []) := by
    rw [readAlternatives]
    change (readSequence (4 * (t.length + 7) + 3) true {} [] >>= _) (p.at _) = _
    rw [run_bind_ok _ _ _ _ _ hsequence]
    rfl
  have hfixed : (Node.seq (.group none (sequence ns)) (.anchor .textEnd)).lookbehindsFixed = true := by
    simp [Node.lookbehindsFixed, lookbehindsFixed_sequence ns h.fixed]
  have hwhole : readWhole (p.at ("(?s:".toList ++ t ++ ")\\Z".toList)) =
      .ok (.seq (.group none (sequence ns)) (.anchor .textEnd), p.at []) := by
    rw [readWhole, run_bind_ok _ _ _ _ _ (run_rest _), Progress.rest_at, hlength, htext,
      run_bind_ok _ _ _ _ _ halternatives]
    rw [run_bind_ok _ _ _ _ _ (show (get : Read Progress) (p.at []) = .ok (p.at [], p.at []) from rfl)]
    simp only [hfixed]
    rfl
  rw [read, String.toList_ofList]
  change (readWhole (p.at ("(?s:".toList ++ t ++ ")\\Z".toList))).map (·.1) = _
  rw [hwhole]
  rfl

end DocNavigation.Pattern
