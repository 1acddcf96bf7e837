import DocNavigation.Proofs.Glob.Matching

/-!
A glob as symbols and stars, and cut at the stars into segments. A name fits the first segment at
its front, and the later ones one after another behind it.
-/

namespace DocNavigation.Pattern.Glob

inductive Token where
  | star
  | one (s : Symbol)
deriving DecidableEq, Repr

def Token.piece : Token → Piece
  | .star => .star
  | .one s => .fixed s.text

/-- The symbol at the front of a glob that does not begin with a star, and the glob after it. -/
def symbolAt (c : Char) (cs : List Char) : Symbol × List Char :=
  if c = '?' then (.any, cs)
  else if c = '[' then
    match enclosed? cs with
    | some (stuff, rest) => (.among stuff, rest)
    | none => (.literal '[', cs)
  else (.literal c, cs)

def tokens : (fuel : Nat) → List Char → List Token
  | 0, _ => []
  | _ + 1, [] => []
  | fuel + 1, c :: cs =>
    if c = '*' then .star :: tokens fuel (cs.dropWhile (· = '*'))
    else .one (symbolAt c cs).1 :: tokens fuel (symbolAt c cs).2

/-- The tokens match the name as a whole. -/
def Fits : List Token → List Char → Prop
  | [], name => name = []
  | .star :: ts, name => ∃ rest, rest <:+ name ∧ Fits ts rest
  | .one _ :: _, [] => False
  | .one s :: ts, c :: name => s.accepts c = true ∧ Fits ts name

section
variable (fuel : Nat) (c : Char) (cs name : List Char)

theorem pieces_eq : pieces fuel cs = (tokens fuel cs).map Token.piece := by
  induction fuel generalizing cs with
  | zero => rfl
  | succ fuel ih =>
    cases cs with
    | nil => rfl
    | cons c cs =>
      by_cases hstar : c = '*'
      · simp only [pieces, tokens, hstar, if_true, ih, List.map_cons, Token.piece]
      by_cases hany : c = '?'
      · simp only [pieces, tokens, symbolAt, hany, if_true, Char.reduceEq, if_false, ih, List.map_cons,
          Token.piece, Symbol.text]
      by_cases hbracket : c = '['
      · have hescaped : escaped '[' = ['\\', '['] := by decide
        cases henclosed : enclosed? cs with
        | none =>
          simp only [pieces, tokens, symbolAt, hbracket, henclosed, if_true, Char.reduceEq, if_false, ih,
            List.map_cons, Token.piece, Symbol.text, hescaped]
        | some r =>
          simp only [pieces, tokens, symbolAt, hbracket, henclosed, if_true, Char.reduceEq, if_false, ih,
            List.map_cons, Token.piece, Symbol.text]
      · simp only [pieces, tokens, symbolAt, hstar, hany, hbracket, if_false, ih, List.map_cons,
          Token.piece, Symbol.text]

theorem begins_symbolAt (hc : c ≠ '*') : Begins (c :: cs) (symbolAt c cs).1 (symbolAt c cs).2 := by
  unfold symbolAt
  split
  case isTrue hany => exact hany ▸ .any cs
  split
  case isTrue hbracket =>
    subst hbracket
    split
    case h_1 stuff rest heq =>
      obtain ⟨henclosable, rfl⟩ := (enclosed?_eq_some_iff _ _ _).mp heq
      exact .among stuff rest henclosable
    case h_2 heq =>
      refine .bracket cs fun stuff more henclosable hcs => ?_
      rw [(enclosed?_eq_some_iff cs more stuff).mpr ⟨henclosable, hcs⟩] at heq
      cases heq
  case isFalse hany hbracket => exact .literal c cs (by simp [hc, hany, hbracket])

variable (glob more : List Char) (s : Symbol)

theorem Begins.isClosed (h : Begins glob s more) : s.IsClosed := by
  cases h with
  | among stuff _ h => exact h
  | _ => trivial

theorem Begins.length_lt (h : Begins glob s more) : more.length < glob.length := by
  cases h with
  | among stuff _ _ => simp only [List.length_cons, List.length_append]; omega
  | _ => exact Nat.lt_succ_self _

/-- A glob begins in one way at most, and never with a star. -/
theorem Begins.eq_symbolAt (h : Begins (c :: cs) s more) : c ≠ '*' ∧ symbolAt c cs = (s, more) := by
  cases h with
  | any => exact ⟨by decide, rfl⟩
  | among stuff _ henclosable =>
    have henclosed := (enclosed?_eq_some_iff (stuff ++ ']' :: more) more stuff).mpr
      ⟨henclosable, rfl⟩
    exact ⟨by decide, by simp [symbolAt, henclosed]⟩
  | bracket _ hopen =>
    have henclosed : enclosed? cs = none := by
      rw [Option.eq_none_iff_forall_ne_some]
      rintro ⟨stuff, rest⟩ hsome
      obtain ⟨henclosable, hcs⟩ := (enclosed?_eq_some_iff _ _ _).mp hsome
      exact hopen stuff rest henclosable hcs
    exact ⟨by decide, by simp [symbolAt, henclosed]⟩
  | literal _ _ hplain =>
    simp only [List.mem_cons, List.not_mem_nil, or_false, not_or] at hplain
    exact ⟨hplain.1, by simp [symbolAt, hplain]⟩

theorem matches_nil_iff : Matches [] name ↔ name = [] := by
  constructor
  · intro h
    cases h with
    | nil => rfl
    | symbol _ _ _ _ _ hbegins => exact absurd (hbegins.length_lt _ _ _) (by simp)
  · rintro rfl
    exact .nil

theorem matches_symbol_iff (hc : c ≠ '*') : Matches (c :: cs) name ↔
    ∃ d rest, name = d :: rest ∧ (symbolAt c cs).1.accepts d = true ∧
      Matches (symbolAt c cs).2 rest := by
  constructor
  · intro h
    cases h with
    | star => exact absurd rfl hc
    | symbol _ more rest s d hbegins hd h =>
      rw [(hbegins.eq_symbolAt _ _ _ _).2]
      exact ⟨d, rest, rfl, hd, h⟩
  · rintro ⟨d, rest, rfl, hd, h⟩
    exact .symbol _ _ rest _ d (begins_symbolAt c cs hc) hd h

theorem matches_star_iff :
    Matches ('*' :: cs) name ↔ ∃ rest, rest <:+ name ∧ Matches cs rest := by
  constructor
  · intro h
    cases h with
    | star _ taken rest h => exact ⟨rest, List.suffix_append taken rest, h⟩
    | symbol _ _ _ _ _ hbegins => exact absurd rfl (hbegins.eq_symbolAt _ _ _ _).1
  · rintro ⟨rest, ⟨taken, rfl⟩, h⟩
    exact .star cs taken rest h

/-- Several stars in a row match what one of them does. -/
theorem matches_dropStars (h : Matches (cs.dropWhile (· = '*')) name) :
    ∃ rest, rest <:+ name ∧ Matches cs rest := by
  induction cs with
  | nil => exact ⟨name, List.suffix_rfl, h⟩
  | cons c cs ih =>
    by_cases hc : c = '*'
    · subst hc
      obtain ⟨rest, hrest, hcs⟩ := ih h
      exact ⟨rest, hrest, .star cs [] rest hcs⟩
    · rw [List.dropWhile_cons_of_neg (by simpa using hc)] at h
      exact ⟨name, List.suffix_rfl, h⟩

theorem dropStars_matches (h : Matches cs name) :
    ∃ rest, rest <:+ name ∧ Matches (cs.dropWhile (· = '*')) rest := by
  induction cs generalizing name with
  | nil => exact ⟨name, List.suffix_rfl, h⟩
  | cons c cs ih =>
    by_cases hc : c = '*'
    · subst hc
      obtain ⟨rest, hrest, hcs⟩ := (matches_star_iff cs name).mp h
      obtain ⟨rest', hrest', hcs'⟩ := ih rest hcs
      exact ⟨rest', hrest'.trans hrest, hcs'⟩
    · rw [List.dropWhile_cons_of_neg (by simpa using hc)]
      exact ⟨name, List.suffix_rfl, h⟩

theorem fits_tokens (h : cs.length ≤ fuel) : Fits (tokens fuel cs) name ↔ Matches cs name := by
  induction fuel generalizing cs name with
  | zero =>
    rw [List.eq_nil_of_length_eq_zero (Nat.le_zero.mp h), matches_nil_iff]
    rfl
  | succ fuel ih =>
    cases cs with
    | nil => exact (matches_nil_iff name).symm
    | cons c cs =>
      rw [tokens]
      split
      case isTrue hc =>
        subst hc
        have hshort : (cs.dropWhile (· = '*')).length ≤ fuel :=
          (List.dropWhile_sublist _).length_le.trans (Nat.le_of_succ_le_succ h)
        rw [Fits, matches_star_iff]
        simp only [ih _ _ hshort]
        -- the stars that were dropped can take nothing, or what the first one takes
        constructor
        · rintro ⟨rest, hrest, hmatch⟩
          obtain ⟨rest', hrest', hmatch'⟩ := matches_dropStars cs rest hmatch
          exact ⟨rest', hrest'.trans hrest, hmatch'⟩
        · rintro ⟨rest, hrest, hmatch⟩
          obtain ⟨rest', hrest', hmatch'⟩ := dropStars_matches cs rest hmatch
          exact ⟨rest', hrest'.trans hrest, hmatch'⟩
      case isFalse hc =>
        have hshort : (symbolAt c cs).2.length ≤ fuel :=
          Nat.le_of_lt_succ (((begins_symbolAt c cs hc).length_lt _ _ _).trans_le h)
        rw [matches_symbol_iff c cs name hc]
        cases name with
        | nil => simp [Fits]
        | cons d name => simp [Fits, ih _ _ hshort]

theorem tokens_isClosed (h : .one s ∈ tokens fuel cs) : s.IsClosed := by
  induction fuel generalizing cs with
  | zero => simp [tokens] at h
  | succ fuel ih =>
    cases cs with
    | nil => simp [tokens] at h
    | cons c cs =>
      rw [tokens] at h
      split at h
      case isTrue => exact ih _ (by simpa using h)
      case isFalse hc =>
        rcases List.mem_cons.mp h with heq | h
        · cases heq
          exact (begins_symbolAt c cs hc).isClosed
        · exact ih _ h

end

/-- What is left of a name after a character for each of the symbols. -/
def passes : List Symbol → List Char → Option (List Char)
  | [], name => some name
  | _ :: _, [] => none
  | s :: ss, c :: name => if s.accepts c then passes ss name else none

/-- The segments are in the name one after another, the last one at its end. -/
def Chained : List (List Symbol) → List Char → Prop
  | [], name => name = []
  | ss :: segments, name =>
    ∃ start rest, start <:+ name ∧ passes ss start = some rest ∧ Chained segments rest

def first : List Token → List Symbol
  | .one s :: ts => s :: first ts
  | _ => []

/-- The segments behind a star each. -/
def later : List Token → List (List Symbol)
  | [] => []
  | .one _ :: ts => later ts
  | .star :: ts => first ts :: later ts

theorem fits_iff (ts : List Token) (name : List Char) :
    Fits ts name ↔ ∃ rest, passes (first ts) name = some rest ∧ Chained (later ts) rest := by
  induction ts generalizing name with
  | nil => simp [Fits, first, later, passes, Chained]
  | cons t ts ih =>
    cases t with
    | star =>
      have hstar : Fits (.star :: ts) name ↔ Chained (later (.star :: ts)) name := by
        rw [Fits, later, Chained]
        refine exists_congr fun start => ?_
        rw [ih, ← exists_and_left]
      rw [hstar]
      simp [first, passes]
    | one s =>
      cases name with
      | nil => simp [Fits, first, passes]
      | cons c name =>
        rw [Fits, ih, first, later, passes]
        split <;> simp_all

theorem passes_suffix (ss : List Symbol) (name rest : List Char) (h : passes ss name = some rest) :
    rest <:+ name ∧ name.length = ss.length + rest.length := by
  induction ss generalizing name with
  | nil =>
    cases h
    exact ⟨List.suffix_rfl, by simp⟩
  | cons s ss ih =>
    cases name with
    | nil => cases h
    | cons c name =>
      rw [passes] at h
      split at h
      case isTrue =>
        obtain ⟨hsuffix, hlength⟩ := ih name h
        exact ⟨hsuffix.trans (List.suffix_cons c name), by simp only [List.length_cons]; omega⟩
      case isFalse => cases h

/-- More in front of a name does no harm to segments that are searched for. -/
theorem Chained.mono (segments : List (List Symbol)) (hne : segments ≠ []) (name name' : List Char)
    (hsuffix : name <:+ name') (h : Chained segments name) : Chained segments name' := by
  cases segments with
  | nil => exact absurd rfl hne
  | cons ss segments =>
    obtain ⟨start, rest, hstart, hpasses, hrest⟩ := h
    exact ⟨start, rest, hstart.trans hsuffix, hpasses, hrest⟩

/-- If any place will do for a segment, the first one will. -/
theorem chained_cons_iff (ss : List Symbol) (segments : List (List Symbol)) (hne : segments ≠ [])
    (name : List Char) : Chained (ss :: segments) name ↔
      ∃ rest ∈ (name.tails.filterMap (passes ss)).head?, Chained segments rest := by
  constructor
  · rintro ⟨start, rest, hstart, hpasses, hrest⟩
    induction name with
    | nil =>
      rw [List.suffix_nil.mp hstart] at hpasses
      exact ⟨rest, by simp [hpasses], hrest⟩
    | cons c name ih =>
      rw [List.tails_cons, List.filterMap_cons]
      cases hfirst : passes ss (c :: name) with
      | none =>
        refine ih ?_
        rcases List.suffix_cons_iff.mp hstart with rfl | h
        · rw [hfirst] at hpasses
          cases hpasses
        · exact h
      | some rest' =>
        refine ⟨rest', rfl, hrest.mono segments hne rest rest' ?_⟩
        -- both are what is left of one name, and the later place leaves less
        have hrest' := passes_suffix ss _ _ hfirst
        have hlater := passes_suffix ss _ _ hpasses
        have hlength := hstart.length_le
        exact List.suffix_of_suffix_length_le (hlater.1.trans hstart) hrest'.1 (by omega)
  · rintro ⟨rest, hhead, hrest⟩
    obtain ⟨start, hstart, hpasses⟩ := List.mem_filterMap.mp (List.mem_of_mem_head? hhead)
    exact ⟨start, rest, (List.mem_tails _ _).mp hstart, hpasses, hrest⟩

end DocNavigation.Pattern.Glob
