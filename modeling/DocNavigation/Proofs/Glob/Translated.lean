import DocNavigation.Proofs.Glob.Segments

/-!
The pattern of a glob. It is read without an error, and a match of it from the start of a name to
its end is a match of the glob.
-/

namespace DocNavigation.Pattern.Glob

/-- The text for the segments behind stars: all but the last one are taken where they are found
first. -/
def chainText : List (List Symbol) → List Char
  | [] => []
  | [ss] => ".*".toList ++ ss.flatMap Symbol.text
  | ss :: segments =>
    "(?>".toList ++ ((".*?".toList ++ ss.flatMap Symbol.text) ++ [')']) ++ chainText segments

def chainNodes : List (List Symbol) → List Node
  | [] => []
  | [ss] => .rep 0 none .greedy (.any true) :: ss.map Symbol.node
  | ss :: segments =>
    .atomic (sequence (.rep 0 none .lazy (.any true) :: ss.map Symbol.node)) :: chainNodes segments

section
variable (ts : List Token)

theorem fixedText_eq : fixedText (ts.map Token.piece) = (first ts).flatMap Symbol.text := by
  induction ts with
  | nil => rfl
  | cons t ts ih =>
    cases t with
    | star => rfl
    | one s =>
      rw [first, List.flatMap_cons, ← ih]
      rfl

theorem afterFixed_eq_nil_iff : afterFixed (ts.map Token.piece) = [] ↔ later ts = [] := by
  induction ts with
  | nil => exact iff_of_true rfl rfl
  | cons t ts ih =>
    cases t with
    | star => simp [Token.piece, afterFixed, later]
    | one s => exact ih

theorem starred_eq (fuel : Nat) (h : ts.length ≤ fuel) :
    starred fuel (afterFixed (ts.map Token.piece)) = chainText (later ts) := by
  induction ts generalizing fuel with
  | nil => cases fuel <;> rfl
  | cons t ts ih =>
    cases t with
    | one s => exact ih fuel (Nat.le_of_succ_le h)
    | star =>
      obtain ⟨fuel, rfl⟩ := Nat.exists_eq_succ_of_ne_zero (Nat.ne_of_gt (Nat.zero_lt_of_lt h))
      have hrest := ih fuel (Nat.le_of_succ_le_succ h)
      have hnil := afterFixed_eq_nil_iff ts
      change starred (fuel + 1) (.star :: ts.map Token.piece) = chainText (first ts :: later ts)
      rw [starred, fixedText_eq]
      cases hafter : afterFixed (ts.map Token.piece) with
      | nil =>
        rw [hnil.mp hafter]
        rfl
      | cons p ps =>
        rw [hafter] at hrest
        have hne : later ts ≠ [] := fun h => by simp [hnil.mpr h] at hafter
        obtain ⟨ss, segments, hlater⟩ := List.exists_cons_of_ne_nil hne
        have hopen : "(?>.*?".toList = "(?>".toList ++ ".*?".toList := by decide
        rw [hlater] at hrest ⊢
        simp only [hrest, chainText, hopen, List.append_assoc]

end

/-- The tokens of a glob. -/
def tokensOf (glob : String) : List Token :=
  tokens glob.length glob.toList

def nodes (ts : List Token) : List Node :=
  (first ts).map Symbol.node ++ chainNodes (later ts)

section
variable (ts : List Token) (h : ∀ s, .one s ∈ ts → s.IsClosed)
include h

theorem first_isClosed : ∀ s ∈ first ts, s.IsClosed := by
  induction ts with
  | nil => simp [first]
  | cons t ts ih =>
    cases t with
    | star => simp [first]
    | one s =>
      refine List.forall_mem_cons.mpr ⟨h s (List.mem_cons_self ..), ?_⟩
      exact ih fun s hs => h s (List.mem_cons_of_mem _ hs)

theorem later_isClosed : ∀ ss ∈ later ts, ∀ s ∈ ss, s.IsClosed := by
  induction ts with
  | nil => simp [later]
  | cons t ts ih =>
    have hrest : ∀ s, .one s ∈ ts → s.IsClosed := fun s hs => h s (List.mem_cons_of_mem _ hs)
    cases t with
    | star => exact List.forall_mem_cons.mpr ⟨first_isClosed ts hrest, ih hrest⟩
    | one s => exact ih hrest

end

theorem reads_symbols (ss : List Symbol) (h : ∀ s ∈ ss, s.IsClosed) :
    Reads (ss.flatMap Symbol.text) (ss.map Symbol.node) :=
  .flatMap _ _ ss fun s hs => s.reads (h s hs)

theorem reads_chain (segments : List (List Symbol)) (h : ∀ ss ∈ segments, ∀ s ∈ ss, s.IsClosed) :
    Reads (chainText segments) (chainNodes segments) := by
  induction segments using chainText.induct with
  | case1 => exact .nil
  | case2 ss =>
    exact .append _ _ _ _ Reads.all (reads_symbols ss (h ss (List.mem_cons_self ..)))
  | case3 ss segments hne ih =>
    rw [List.forall_mem_cons] at h
    rw [chainText, chainNodes]
    · exact .append _ _ _ _ (.atomic _ _ (.append _ _ _ _ Reads.few (reads_symbols ss h.1))) (ih h.2)
    · exact hne
    · exact hne

/-- The node that the pattern of a glob is read as. -/
def node (glob : String) : Node :=
  .seq (.group none (sequence (nodes (tokensOf glob)))) (.anchor .textEnd)

theorem read_toPattern (glob : String) : read (toPattern glob) = .ok (node glob) := by
  have hclosed : ∀ s, .one s ∈ tokensOf glob → s.IsClosed :=
    fun s hs => tokens_isClosed _ _ s hs
  have hreads := Reads.append _ _ _ _ (reads_symbols _ (first_isClosed _ hclosed))
    (reads_chain _ (later_isClosed _ hclosed))
  have htext : toPattern glob = String.ofList ("(?s:".toList ++
      ((first (tokensOf glob)).flatMap Symbol.text ++ chainText (later (tokensOf glob))) ++
        ")\\Z".toList) := by
    have hpieces : pieces glob.length glob.toList = (tokensOf glob).map Token.piece :=
      pieces_eq _ _
    have hstarred := starred_eq (tokensOf glob) (tokensOf glob).length (Nat.le_refl _)
    unfold toPattern
    rw [hpieces]
    dsimp only
    rw [List.length_map, fixedText_eq, hstarred, List.append_assoc _ _ (chainText _)]
  rw [htext]
  exact hreads.whole

theorem Bracket.leaves (b : Bracket) : Leaves b.node (Leaves.step b.accepts) := by
  obtain ⟨negated, ss⟩ := b
  cases ss with
  | nil =>
    cases negated with
    | true =>
      refine .of_step _ _ fun s => ?_
      rw [Bracket.node, Node.ends_any]
      cases s.after <;> simp [Bracket.accepts]
    | false =>
      have hnever : Leaves.step (Bracket.mk false []).accepts = fun _ => [] := by
        funext cs
        cases cs <;> rfl
      rw [hnever]
      exact .never
  | cons s ss =>
    have hnode : (Bracket.mk negated (s :: ss)).node =
        .set ⟨(s :: ss).map Span.item, negated, false, false⟩ := by
      cases negated <;> rfl
    rw [hnode]
    refine .of_step _ _ fun spot => ?_
    have hcontains : ∀ c, CharSet.contains ⟨(s :: ss).map Span.item, negated, false, false⟩ c =
        (Bracket.mk negated (s :: ss)).accepts c := by
      intro c
      have hany : ((s :: ss).map Span.item).any (·.contains false c) =
          (s :: ss).any (·.contains c) := by
        rw [List.any_map]
        exact congrArg (List.any (s :: ss)) (funext fun s => Span.contains_item s c)
      rw [CharSet.contains, Bracket.accepts, ← hany]
      rfl
    rw [Node.ends_set]
    cases spot.after with
    | nil => rfl
    | cons c cs => simp only [hcontains]

theorem Symbol.leaves (s : Symbol) : Leaves s.node (Leaves.step fun c => s.accepts c) := by
  cases s with
  | literal c =>
    have hbracket := (Bracket.mk false [.one c]).leaves
    have haccepts : (Bracket.mk false [.one c]).accepts = fun d => (Symbol.literal c).accepts d := by
      funext d
      simp [Bracket.accepts, Span.contains, Symbol.accepts]
    rwa [haccepts] at hbracket
  | any =>
    refine .of_step _ _ fun s => ?_
    rw [Symbol.node, Node.ends_any]
    cases s.after <;> simp [Symbol.accepts]
  | among stuff => exact (Bracket.ofText stuff).leaves

theorem nodup_step (accepts : Char → Bool) (cs : List Char) : (Leaves.step accepts cs).Nodup := by
  cases cs with
  | nil => exact .nil
  | cons c cs =>
    rw [Leaves.step]
    split <;> simp

theorem leaves_symbols (ss : List Symbol) :
    Leaves (sequence (ss.map Symbol.node)) fun cs => (passes ss cs).toList := by
  induction ss with
  | nil => exact .empty
  | cons s ss ih =>
    have hcons := Leaves.cons _ _ _ _ s.leaves (nodup_step _) ih
    have hpasses : ∀ cs, ((Leaves.step (fun c => s.accepts c) cs).flatMap
        fun cs => (passes ss cs).toList).eraseDups = (passes (s :: ss) cs).toList := by
      intro cs
      cases cs with
      | nil => rfl
      | cons c cs =>
        rw [Leaves.step, passes]
        split
        case isTrue => cases hrest : passes ss cs <;> simp [hrest, List.eraseDups_cons]
        case isFalse => rfl
    rwa [funext hpasses] at hcons

/-- Symbols in front of a pattern are matched one after another. -/
theorem leaves_behind (ss : List Symbol) (ns : List Node) (f : List Char → List (List Char))
    (h : Leaves (sequence ns) f) : ∃ g, Leaves (sequence (ss.map Symbol.node ++ ns)) g ∧
      ∀ cs, [] ∈ g cs ↔ ∃ rest, passes ss cs = some rest ∧ [] ∈ f rest := by
  induction ss with
  | nil => exact ⟨f, h, by simp [passes]⟩
  | cons s ss ih =>
    obtain ⟨g, hg, hmem⟩ := ih
    refine ⟨_, Leaves.cons _ _ _ _ s.leaves (nodup_step _) hg, fun cs => ?_⟩
    rw [List.mem_eraseDups, List.mem_flatMap]
    cases cs with
    | nil => simp [Leaves.step, passes]
    | cons c cs =>
      rw [Leaves.step, passes]
      split
      case isTrue => simpa using hmem cs
      case isFalse => simp

/-- An atomic group keeps the place that is found first, and that is enough. -/
theorem leaves_chain (segments : List (List Symbol)) :
    ∃ f, Leaves (sequence (chainNodes segments)) f ∧ ∀ cs, [] ∈ f cs ↔ Chained segments cs := by
  induction segments using chainText.induct with
  | case1 => exact ⟨_, .empty, by simp [Chained, eq_comm]⟩
  | case2 ss =>
    have hall := Leaves.any .greedy (by decide)
    refine ⟨_, Leaves.cons _ _ _ _ hall (nodup_walked _) (leaves_symbols ss), fun cs => ?_⟩
    rw [List.mem_eraseDups, List.mem_flatMap]
    simp [Chained, mem_walked]
  | case3 ss segments hne ih =>
    obtain ⟨f, hf, hmem⟩ := ih
    have hfew := Leaves.any .lazy (by decide)
    have hatomic := Leaves.atomic _ _
      (Leaves.cons _ _ _ _ hfew (nodup_walked _) (leaves_symbols ss))
    have hnode : chainNodes (ss :: segments) =
      .atomic (sequence (.rep 0 none .lazy (.any true) :: ss.map Symbol.node)) ::
        chainNodes segments := by
      rw [chainNodes]
      exact hne
    rw [hnode]
    refine ⟨_, Leaves.cons _ _ _ _ hatomic (fun cs => ?_) hf, fun cs => ?_⟩
    · exact nodup_take_one _
    -- what the group leaves is what the first place leaves that will do for the segment
    · have hhead : (((walked true cs).flatMap fun cs => (passes ss cs).toList).eraseDups.take 1) =
          (cs.tails.filterMap (passes ss)).head?.toList := by
        rw [List.take_one, head?_eraseDups, ← List.filterMap_eq_flatMap_toList]
        rfl
      rw [chained_cons_iff ss segments hne, List.mem_eraseDups, List.mem_flatMap]
      simp only [decide_true, hhead, hmem, Option.mem_toList, Option.mem_def]

theorem leaves_node (glob : String) :
    ∃ f, Leaves (node glob) f ∧ ∀ cs, f cs ≠ [] ↔ Matches glob.toList cs := by
  obtain ⟨f, hf, hchain⟩ := leaves_chain (later (tokensOf glob))
  obtain ⟨g, hg, hmem⟩ := leaves_behind (first (tokensOf glob)) _ f hf
  refine ⟨_, .seq _ _ _ _ (.group _ _ hg) .textEnd, fun cs => ?_⟩
  have hend : ((g cs).flatMap fun rest => if rest = [] then [([] : List Char)] else []).eraseDups ≠
      [] ↔ [] ∈ g cs := by
    constructor
    · intro h
      obtain ⟨r, hr⟩ := List.exists_mem_of_ne_nil _ h
      rw [List.mem_eraseDups, List.mem_flatMap] at hr
      obtain ⟨rest, hrest, hr⟩ := hr
      split at hr
      case isTrue hnil => rwa [hnil] at hrest
      case isFalse => cases hr
    · intro h
      have hend : ([] : List Char) ∈ (if ([] : List Char) = [] then [([] : List Char)] else []) :=
        List.mem_singleton_self []
      exact List.ne_nil_of_mem (List.mem_eraseDups.mpr (List.mem_flatMap.mpr ⟨[], h, hend⟩))
  have hfuel : glob.toList.length ≤ glob.length := String.length_toList.le
  rw [hend, hmem, ← fits_tokens glob.length glob.toList cs hfuel, fits_iff]
  simp only [hchain]
  rfl

/-- Matched from the start of a name, the pattern of a glob is for the names that the glob matches as
a whole. -/
theorem ends_iff (glob name : String) :
    (node glob).ends ⟨[], name.toList, []⟩ ≠ [] ↔ Matches glob.toList name.toList := by
  obtain ⟨f, hf, hmatches⟩ := leaves_node glob
  have hrests : ((node glob).ends ⟨[], name.toList, []⟩).map Spot.after = f name.toList :=
    hf.rests _ rfl
  rw [← hmatches, ← hrests, ne_eq, ne_eq, List.map_eq_nil_iff]

/-- Searched for, it is found wherever the glob matches the name from some character on. -/
theorem found_iff (glob name : String) :
    (node glob).found name = true ↔ ∃ rest, rest <:+ name.toList ∧ Matches glob.toList rest := by
  obtain ⟨f, hf, hmatches⟩ := leaves_node glob
  rw [hf.found_iff]
  simp only [hmatches]

end DocNavigation.Pattern.Glob
