import DocNavigation.Proofs.Glob.Symbol
import DocNavigation.Proofs.Pattern.Ends

/-!
The names that a glob matches, and the glob cut at its stars.
-/

namespace DocNavigation.Pattern.Glob

/-- The symbol that a glob begins with, and the glob after it. A bracket that opens stands for
itself if nothing closes it. -/
inductive Begins : List Char → Symbol → List Char → Prop
  | any (glob : List Char) : Begins ('?' :: glob) .any glob
  | among (stuff glob : List Char) (h : Enclosable stuff) :
    Begins ('[' :: (stuff ++ ']' :: glob)) (.among stuff) glob
  | bracket (glob : List Char) (h : ∀ stuff more, Enclosable stuff → glob ≠ stuff ++ ']' :: more) :
    Begins ('[' :: glob) (.literal '[') glob
  | literal (c : Char) (glob : List Char) (h : c ∉ ['*', '?', '[']) :
    Begins (c :: glob) (.literal c) glob

/-- The glob matches the name as a whole. -/
inductive Matches : List Char → List Char → Prop
  | nil : Matches [] []
  | star (glob taken name : List Char) (h : Matches glob name) :
    Matches ('*' :: glob) (taken ++ name)
  | symbol (glob more name : List Char) (s : Symbol) (c : Char) (hbegins : Begins glob s more)
    (hc : s.accepts c = true) (h : Matches more name) : Matches glob (c :: name)

/-- The text up to the first closing bracket, and what follows that. -/
def closed? (cs : List Char) : Option (List Char × List Char) :=
  match cs.span (· ≠ ']') with
  | (inner, ']' :: rest) => some (inner, rest)
  | _ => none

section
variable (c : Char) (cs inner rest stuff : List Char)

theorem closed?_cons : closed? (c :: cs) =
    if c = ']' then some ([], cs) else (closed? cs).map fun r => (c :: r.1, r.2) := by
  simp only [closed?, List.span_eq_takeWhile_dropWhile]
  by_cases hc : c = ']'
  · simp [hc]
  · rw [List.takeWhile_cons_of_pos (by simpa using hc), List.dropWhile_cons_of_pos (by simpa using hc),
      if_neg hc]
    split <;> simp_all

theorem closed?_eq_some_iff :
    closed? cs = some (inner, rest) ↔ ']' ∉ inner ∧ cs = inner ++ ']' :: rest := by
  induction cs generalizing inner with
  | nil => simp [closed?]
  | cons c cs ih =>
    rw [closed?_cons]
    by_cases hc : c = ']'
    · subst hc
      cases inner with
      | nil => simp
      | cons d inner => simp; grind
    · cases inner with
      | nil => simp [hc]
      | cons d inner =>
        have hnext : (closed? cs).map (fun r => (c :: r.1, r.2)) = some (d :: inner, rest) ↔
            c = d ∧ closed? cs = some (inner, rest) := by
          cases closed? cs with
          | none => simp
          | some r =>
            obtain ⟨inner', rest'⟩ := r
            simp [and_assoc]
        rw [if_neg hc, hnext, ih, List.cons_append, List.cons.injEq, List.mem_cons, not_or]
        refine ⟨?_, ?_⟩
        · rintro ⟨rfl, hinner, rfl⟩
          exact ⟨⟨Ne.symm hc, hinner⟩, rfl, rfl⟩
        · rintro ⟨⟨-, hinner⟩, rfl, rfl⟩
          exact ⟨rfl, hinner, rfl⟩

theorem enclosed?_listed (hc : c ≠ '!') :
    enclosed? (c :: cs) = (closed? cs).map fun r => (c :: r.1, r.2) := by
  by_cases hclose : c = ']'
  · subst hclose
    simp only [enclosed?, closed?, List.span_eq_takeWhile_dropWhile, List.cons.injEq, Char.reduceEq,
      false_and, imp_self, implies_true, List.nil_append, List.cons_append]
    split <;> simp_all
  · simp only [enclosed?, closed?, List.span_eq_takeWhile_dropWhile, ne_eq, decide_not,
      List.cons.injEq, hc, hclose, false_and, imp_self, implies_true, decide_false, Bool.not_false,
      List.takeWhile_cons_of_pos, List.dropWhile_cons_of_pos, List.append_nil, List.nil_append]
    split <;> simp_all

theorem enclosed?_negated :
    enclosed? ('!' :: c :: cs) = (closed? cs).map fun r => ('!' :: c :: r.1, r.2) := by
  by_cases hclose : c = ']'
  · subst hclose
    simp only [enclosed?, closed?, List.span_eq_takeWhile_dropWhile, List.nil_append,
      List.cons_append]
    split <;> simp_all
  · simp only [enclosed?, closed?, List.span_eq_takeWhile_dropWhile, ne_eq, decide_not,
      List.cons.injEq, hclose, false_and, imp_self, implies_true, decide_false, Bool.not_false,
      List.takeWhile_cons_of_pos, List.dropWhile_cons_of_pos, List.append_nil, List.cons_append,
      List.nil_append]
    split <;> simp_all

theorem map_closed?_eq_some_iff (front : List Char) :
    (closed? cs).map (fun r => (front ++ r.1, r.2)) = some (stuff, rest) ↔
      ∃ inner, stuff = front ++ inner ∧ ']' ∉ inner ∧ cs = inner ++ ']' :: rest := by
  rw [Option.map_eq_some_iff]
  constructor
  · rintro ⟨⟨inner, more⟩, hclosed, heq⟩
    cases heq
    exact ⟨inner, rfl, (closed?_eq_some_iff _ _ _).mp hclosed⟩
  · rintro ⟨inner, rfl, hinner⟩
    exact ⟨(inner, rest), (closed?_eq_some_iff _ _ _).mpr hinner, rfl⟩

/-- What is enclosed is what can be, up to a bracket that closes. -/
theorem enclosed?_eq_some_iff :
    enclosed? cs = some (stuff, rest) ↔ Enclosable stuff ∧ cs = stuff ++ ']' :: rest := by
  cases cs with
  | nil => simp [enclosed?]
  | cons c cs =>
    by_cases hc : c = '!'
    · subst hc
      cases cs with
      | nil =>
        refine iff_of_false (by simp [enclosed?]) ?_
        rintro ⟨henclosable, h⟩
        cases henclosable with
        | listed c body hc hbody => exact hc (List.cons.inj h).1.symm
        | negated c body hbody => simp at h
      | cons c cs =>
        rw [enclosed?_negated]
        refine (map_closed?_eq_some_iff cs rest stuff ['!', c]).trans ⟨?_, ?_⟩
        · rintro ⟨inner, rfl, hinner, rfl⟩
          exact ⟨.negated c inner hinner, rfl⟩
        · rintro ⟨henclosable, h⟩
          cases henclosable with
          | listed d body hd hbody => exact absurd (List.cons.inj h).1.symm hd
          | negated d body hbody =>
            simp only [List.cons_append, List.cons.injEq, true_and] at h
            exact ⟨body, by rw [h.1]; rfl, hbody, h.2⟩
    · rw [enclosed?_listed c cs hc]
      refine (map_closed?_eq_some_iff cs rest stuff [c]).trans ⟨?_, ?_⟩
      · rintro ⟨inner, rfl, hinner, rfl⟩
        exact ⟨.listed c inner hc hinner, rfl⟩
      · rintro ⟨henclosable, h⟩
        cases henclosable with
        | listed d body hd hbody =>
          simp only [List.cons_append, List.cons.injEq] at h
          exact ⟨body, by rw [h.1]; rfl, hbody, h.2⟩
        | negated d body hbody => exact absurd (List.cons.inj h).1 hc

end

end DocNavigation.Pattern.Glob
