import DocNavigation.Proofs.Glob.Bracket
import DocNavigation.Proofs.Pattern.Reading

/-!
The symbols of a glob that stand for one character of a name: a character, a question mark and a
bracket. Each of them is spelled by a text that is read as one item of a pattern.
-/

namespace DocNavigation.Pattern.Glob

inductive Symbol where
  | literal (c : Char)
  | any
  | among (stuff : List Char)
deriving DecidableEq, Repr

def Symbol.accepts (d : Char) : Symbol → Bool
  | .literal c => d = c
  | .any => true
  | .among stuff => (Bracket.ofText stuff).accepts d

/-- What brackets can enclose: a closing one only in front, where an exclamation mark does not
count. -/
inductive Enclosable : List Char → Prop
  | listed (c : Char) (body : List Char) (hc : c ≠ '!') (h : ']' ∉ body) : Enclosable (c :: body)
  | negated (c : Char) (body : List Char) (h : ']' ∉ body) : Enclosable ('!' :: c :: body)

def Symbol.IsClosed : Symbol → Prop
  | .among stuff => Enclosable stuff
  | _ => True

namespace Span

def item : Span → SetItem
  | .one c => .code c.toNat
  | .range lo hi => .range lo.toNat hi.toNat

/-- No closing bracket is in the text. -/
def Plain : Span → Prop
  | .one c => c ≠ ']'
  | .range lo hi => lo ≠ ']' ∧ hi ≠ ']'

/-- No closing bracket is in the text but for its front. -/
def Opens : Span → Prop
  | .one _ => True
  | .range _ hi => hi ≠ ']'

theorem Plain.opens (s : Span) (h : s.Plain) : s.Opens := by
  cases s with
  | one c => trivial
  | range lo hi => exact h.2

theorem contains_item (s : Span) (d : Char) : s.item.contains false d = s.contains d := by
  cases s with
  | one c => simp [item, SetItem.contains, contains, Char.toNat_inj]
  | range lo hi => rfl

theorem spells_memberText (c : Char) : SpellsMember (memberText c) c := by
  unfold memberText
  split
  case isTrue hc =>
    refine .inr ⟨rfl, ?_⟩
    simp only [specials, List.mem_cons, List.not_mem_nil, or_false] at hc ⊢
    grind
  case isFalse hc =>
    refine .inl ⟨rfl, ?_⟩
    rintro rfl
    exact hc (by decide)

theorem memberText_ne_nil (c : Char) : memberText c ≠ [] := by
  unfold memberText
  split <;> simp

theorem head_memberText (c d : Char) (hd : d ≠ '\\') (hcd : c = d → d ∈ specials) :
    (memberText c).head? ≠ some d := by
  unfold memberText
  split
  case isTrue => simpa using Ne.symm hd
  case isFalse hc =>
    intro h
    rw [List.head?_cons, Option.some.injEq] at h
    exact hc (h ▸ hcd h)

theorem clean_memberText (c : Char) (h : c ≠ ']') : Clean (memberText c) :=
  ⟨head_memberText c ']' (by decide) fun hc => absurd hc h,
    head_memberText c '-' (by decide) fun _ => by decide⟩

theorem ordered (lo hi : Char) (hfull : (Span.range lo hi).isFull = true) : lo.toNat ≤ hi.toNat := by
  have hle : ¬ hi < lo := by simpa [isFull] using hfull
  exact Nat.le_of_not_lt hle

theorem spells_text (s : Span) (hfull : s.isFull = true) (h : s.Opens) :
    SpellsItem s.text s.item := by
  cases s with
  | one c => exact ⟨c, rfl, spells_memberText c⟩
  | range lo hi =>
    exact ⟨_, _, lo, hi, rfl, rfl, rfl, spells_memberText lo, spells_memberText hi, h,
      ordered lo hi hfull⟩

theorem clean_text (s : Span) (h : s.Plain) : Clean s.text := by
  cases s with
  | one c => exact clean_memberText c h
  | range lo hi =>
    have hlo := clean_memberText lo h.1
    have hhead : (text (.range lo hi)).head? = (memberText lo).head? :=
      List.head?_append_of_ne_nil _ (memberText_ne_nil lo)
    rwa [Clean, hhead]

end Span

/-- The first one may begin with a closing bracket. -/
def Orderly (ss : List Span) : Prop :=
  (∀ s ∈ ss, s.isFull = true ∧ s.Opens) ∧ ∀ s ∈ ss.tail, s.Plain

theorem Orderly.spells (ss : List Span) (h : Orderly ss) :
    List.Forall₂ SpellsItem (ss.map Span.text) (ss.map Span.item) := by
  rw [List.forall₂_map_left_iff, List.forall₂_map_right_iff, List.forall₂_same]
  exact fun s hs => Span.spells_text s (h.1 s hs).1 (h.1 s hs).2

theorem Orderly.clean (ss : List Span) (h : Orderly ss) : ∀ t ∈ (ss.map Span.text).tail, Clean t := by
  rw [← List.map_tail, List.forall_mem_map]
  exact fun s hs => Span.clean_text s (h.2 s hs)

theorem spans_plain (cs : List Char) (h : ']' ∉ cs) : ∀ s ∈ spans cs, s.Plain := by
  induction cs using spans.induct with
  | case1 lo hi cs ih =>
    simp only [List.mem_cons, not_or] at h
    obtain ⟨hlo, -, hhi, h⟩ := h
    exact List.forall_mem_cons.mpr ⟨⟨Ne.symm hlo, Ne.symm hhi⟩, ih h⟩
  | case2 c cs hcs ih =>
    rw [List.mem_cons, not_or] at h
    rw [spans]
    · exact List.forall_mem_cons.mpr ⟨Ne.symm h.1, ih h.2⟩
    · exact hcs
  | case3 => simp [spans]

theorem tail_filter_sublist {α : Type} (p : α → Bool) (as : List α) :
    (as.filter p).tail.Sublist as.tail := by
  cases as with
  | nil => exact .slnil
  | cons a as =>
    rw [List.filter_cons]
    split
    case isTrue => exact List.filter_sublist
    case isFalse => exact (List.tail_sublist _).trans List.filter_sublist

theorem orderly_spans (c : Char) (body : List Char) (h : ']' ∉ body) :
    Orderly ((spans (c :: body)).filter Span.isFull) := by
  have hall : (∀ s ∈ spans (c :: body), s.Opens) ∧ ∀ s ∈ (spans (c :: body)).tail, s.Plain := by
    unfold spans
    split
    case h_1 lo hi cs heq =>
      cases heq
      simp only [List.mem_cons, not_or] at h
      have hrest := spans_plain cs h.2.2
      exact ⟨List.forall_mem_cons.mpr ⟨Ne.symm h.2.1, fun s hs => Span.Plain.opens s (hrest s hs)⟩,
        hrest⟩
    case h_2 c' cs _ heq =>
      cases heq
      have hrest := spans_plain body h
      exact ⟨List.forall_mem_cons.mpr ⟨trivial, fun s hs => Span.Plain.opens s (hrest s hs)⟩, hrest⟩
    case h_3 heq => cases heq
  refine ⟨fun s hs => ?_, fun s hs => hall.2 s ((tail_filter_sublist _ _).subset hs)⟩
  obtain ⟨hmem, hfull⟩ := List.mem_filter.mp hs
  exact ⟨hfull, hall.1 s hmem⟩

/-- Without a range, what stands in the brackets is any character or none. -/
def Bracket.node : Bracket → Node
  | ⟨true, []⟩ => .any true
  | ⟨false, []⟩ => .look true true .empty
  | ⟨negated, s :: ss⟩ => .set ⟨(s :: ss).map Span.item, negated, false, false⟩

theorem Bracket.reads (negated : Bool) (s : Span) (ss : List Span) (ts : List (List Char))
    (hts : List.Forall₂ SpellsItem ts ((s :: ss).map Span.item)) (hclean : ∀ t ∈ ts.tail, Clean t)
    (hsign : negated = false → ts.flatten.head? ≠ some '^') :
    Reads ('[' :: ((if negated then ['^'] else []) ++ (ts.flatten ++ [']'])))
      [(Bracket.mk negated (s :: ss)).node] := by
  have hnode : (Bracket.mk negated (s :: ss)).node =
      .set ⟨(s :: ss).map Span.item, negated, false, false⟩ := by
    cases negated <;> rfl
  rw [hnode]
  exact .set negated ts _ hts hclean (by simp) hsign

/-- Brackets that begin with an exclamation mark, once what follows it is spelled. -/
theorem reads_negated (ss : List Span) (h : Orderly ss) (stuff : List Char)
    (hstuff : setText stuff = '!' :: ss.flatMap Span.text) :
    Reads (bracketed stuff) [(Bracket.mk true ss).node] := by
  cases ss with
  | nil =>
    have hdot : bracketed stuff = ['.'] := by simp [bracketed, hstuff]
    rw [hdot]
    exact Reads.plain '.' (by decide)
  | cons s ss =>
    have hset := Bracket.reads true s ss _ h.spells h.clean (by simp)
    rw [List.flatten_eq_flatMap, List.flatMap_map] at hset
    have htext : bracketed stuff =
        '[' :: '^' :: ((s :: ss).flatMap Span.text ++ [']']) := by
      have hfull : (s :: ss).flatMap Span.text ≠ [] := by
        have hs := Span.spells_text s (h.1 s (List.mem_cons_self ..)).1
          (h.1 s (List.mem_cons_self ..)).2
        simp [SpellsItem.ne_nil _ _ hs]
      rw [bracketed, hstuff]
      cases htext : (s :: ss).flatMap Span.text with
      | nil => exact absurd htext hfull
      | cons c cs => rfl
    rw [htext]
    exact hset

/-- A range that begins with a sign of its own has that sign escaped. -/
theorem Span.spells_escaped (s : Span) (hfull : s.isFull = true) (h : s.Opens) (c : Char)
    (hc : c ∈ ['^', '[']) (hbegin : s.text.head? = some c) :
    SpellsItem ('\\' :: s.text) s.item := by
  have hplain : ∀ d, (memberText d).head? = some c → d = c ∧ memberText d = [c] := by
    intro d hd
    simp only [List.mem_cons, List.not_mem_nil, or_false] at hc
    unfold memberText at hd ⊢
    split at hd
    case isTrue => rcases hc with rfl | rfl <;> simp at hd
    case isFalse hspecial =>
      simp only [List.head?_cons, Option.some.injEq] at hd
      exact ⟨hd, by rw [if_neg hspecial, hd]⟩
  have hescaped : SpellsMember ['\\', c] c := by
    refine .inr ⟨rfl, ?_⟩
    simp only [List.mem_cons, List.not_mem_nil, or_false] at hc ⊢
    rcases hc with rfl | rfl <;> simp
  cases s with
  | one d =>
    obtain ⟨rfl, hd⟩ := hplain d hbegin
    exact ⟨d, rfl, by rwa [text, hd]⟩
  | range lo hi =>
    have hlo : (memberText lo).head? = some c := by
      rwa [text, List.head?_append_of_ne_nil _ (memberText_ne_nil lo)] at hbegin
    obtain ⟨rfl, hmember⟩ := hplain lo hlo
    refine ⟨_, _, lo, hi, ?_, rfl, rfl, hescaped, spells_memberText hi, h, ordered lo hi hfull⟩
    rw [text, hmember]
    rfl

theorem reads_listed (s : Span) (ss : List Span) (h : Orderly (s :: ss)) (stuff : List Char)
    (hstuff : setText stuff = (s :: ss).flatMap Span.text) (hbang : s.text.head? ≠ some '!') :
    Reads (bracketed stuff) [(Bracket.mk false (s :: ss)).node] := by
  have hs := h.1 s (List.mem_cons_self ..)
  have hspells := Span.spells_text s hs.1 hs.2
  obtain ⟨c, cs, htext⟩ := List.exists_cons_of_ne_nil (SpellsItem.ne_nil _ _ hspells)
  rw [List.flatMap_cons, htext, List.cons_append] at hstuff
  rw [htext] at hbang
  have hcalm : c ≠ '!' := by simpa using hbang
  have hrest : (ss.map Span.text).flatten = ss.flatMap Span.text := by
    rw [List.flatten_eq_flatMap, List.flatMap_map]
    rfl
  unfold bracketed
  rw [hstuff]
  split
  case h_1 heq => cases heq
  case h_2 heq => exact absurd (List.cons.inj heq).1 hcalm
  case h_3 heq => exact absurd (List.cons.inj heq).1 hcalm
  case h_4 heq =>
    cases heq
    -- a sign that would negate the set or open another one is escaped
    split
    case isTrue hc =>
      have hescaped := Span.spells_escaped s hs.1 hs.2 c (by simpa using hc) (by rw [htext]; rfl)
      have hset := Bracket.reads false s ss (('\\' :: s.text) :: ss.map Span.text)
        (.cons hescaped (List.forall₂_cons.mp h.spells).2) h.clean (by simp)
      rw [List.flatten_cons, hrest, htext] at hset
      simpa using hset
    case isFalse hc =>
      rw [not_or] at hc
      have hset := Bracket.reads false s ss (s.text :: ss.map Span.text) h.spells h.clean
        (by simpa [htext] using hc.1)
      rw [List.flatten_cons, hrest, htext] at hset
      simpa using hset

/-- The range up to which an exclamation mark stands is read as a hyphen and the other end. -/
theorem reads_dropped (hi : Char) (ss : List Span) (h : Orderly (.range '!' hi :: ss))
    (stuff : List Char) (hstuff : setText stuff = (Span.range '!' hi :: ss).flatMap Span.text) :
    Reads (bracketed stuff) [(Bracket.mk true (.one '-' :: .one hi :: ss)).node] := by
  have hhi : hi ≠ ']' := (h.1 _ (List.mem_cons_self ..)).2
  have hspells : List.Forall₂ SpellsItem (['-'] :: memberText hi :: ss.map Span.text)
      ((Span.one '-' :: .one hi :: ss).map Span.item) :=
    .cons ⟨'-', rfl, .inl ⟨rfl, by decide⟩⟩
      (.cons ⟨hi, rfl, Span.spells_memberText hi⟩ (List.forall₂_cons.mp h.spells).2)
  have hclean : ∀ t ∈ (['-'] :: memberText hi :: ss.map Span.text).tail, Clean t :=
    List.forall_mem_cons.mpr ⟨Span.clean_memberText hi hhi, h.clean⟩
  have hset := Bracket.reads true _ _ _ hspells hclean (by simp)
  have hbang : memberText '!' = ['!'] := by decide
  have htext : bracketed stuff =
      '[' :: '^' :: ('-' :: (memberText hi ++ ss.flatMap Span.text) ++ [']']) := by
    unfold bracketed
    rw [hstuff, List.flatMap_cons, Span.text, hbang]
    rfl
  rw [List.flatten_cons, List.flatten_cons, List.flatten_eq_flatMap, List.flatMap_map] at hset
  rw [htext]
  exact hset

theorem reads_ofSpans (ss : List Span) (h : Orderly ss) (stuff : List Char)
    (hstuff : setText stuff = ss.flatMap Span.text) :
    Reads (bracketed stuff) [(Bracket.ofSpans ss).node] := by
  have hbang : memberText '!' = ['!'] := by decide
  unfold Bracket.ofSpans
  split
  case h_1 ss =>
    have hrest : Orderly ss := by
      refine ⟨fun s hs => h.1 s (List.mem_cons_of_mem _ hs), fun s hs => ?_⟩
      exact h.2 s (List.mem_of_mem_tail hs)
    refine reads_negated ss hrest stuff ?_
    rw [hstuff, List.flatMap_cons, Span.text, hbang]
    rfl
  case h_2 hi ss => exact reads_dropped hi ss h stuff hstuff
  case h_3 hone hrange =>
    cases ss with
    | nil =>
      have hnever : bracketed stuff = "(?!)".toList := by
        unfold bracketed
        rw [hstuff]
        rfl
      rw [hnever]
      exact Reads.never
    | cons s ss =>
      have hmember : ∀ c, (memberText c).head? = some '!' → c = '!' := by
        intro c hc
        by_contra hne
        exact Span.head_memberText c '!' (by decide) (fun h => absurd h hne) hc
      refine reads_listed s ss h stuff hstuff fun hhead => ?_
      cases s with
      | one c => exact hone ss (by rw [hmember c hhead])
      | range lo hi =>
        rw [Span.text, List.head?_append_of_ne_nil _ (Span.memberText_ne_nil lo)] at hhead
        exact hrange hi ss (by rw [hmember lo hhead])

/-- The text of the brackets is read as an item for the characters that they accept. -/
theorem reads_bracketed (stuff : List Char) (h : Enclosable stuff) :
    Reads (bracketed stuff) [(Bracket.ofText stuff).node] := by
  cases h with
  | listed c body hc h =>
    have hof : Bracket.ofText (c :: body) =
        .ofSpans ((spans (c :: body)).filter Span.isFull) := by
      unfold Bracket.ofText
      split
      case h_1 heq => exact absurd (List.cons.inj heq).1 hc
      case h_2 => rfl
    rw [hof]
    exact reads_ofSpans _ (orderly_spans c body h) _ (setText_eq _ (by simpa using hc))
  | negated c body h => exact reads_negated _ (orderly_spans c body h) _ (setText_negated _)

namespace Symbol

def text : Symbol → List Char
  | .literal c => escaped c
  | .any => ['.']
  | .among stuff => bracketed stuff

def node : Symbol → Node
  | .literal c => Pattern.literal dotted c.toNat
  | .any => .any true
  | .among stuff => (Bracket.ofText stuff).node

theorem reads_escaped (c : Char) : Reads (escaped c) [Pattern.literal dotted c.toNat] := by
  unfold escaped
  split
  case isTrue hc => exact Reads.escaped c hc
  case isFalse hc =>
    have hmeta : metaCharacters = ['(', ')', '[', ']', '\x7b', '\x7d', '?', '*', '+', '-', '|', '^',
      '$', '\\', '.', '&', '~', '#', ' ', '\t', '\n', '\r', '\x0b', '\x0c'] := by decide
    simp only [hmeta, List.mem_cons, List.not_mem_nil, or_false, not_or] at hc
    have hplain : plainNode dotted c = Pattern.literal dotted c.toNat := by
      simp only [plainNode, hc, if_false]
    rw [← hplain]
    refine Reads.plain c ?_
    simp only [List.mem_cons, List.not_mem_nil, or_false, not_or]
    tauto

theorem reads (s : Symbol) (h : s.IsClosed) : Reads s.text [s.node] := by
  cases s with
  | literal c => exact reads_escaped c
  | any => exact Reads.plain '.' (by decide)
  | among stuff => exact reads_bracketed stuff h

end Symbol

end DocNavigation.Pattern.Glob
