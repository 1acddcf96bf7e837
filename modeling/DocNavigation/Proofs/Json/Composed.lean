import DocNavigation.Proofs.Json.RoundTrip
import DocNavigation.Proofs.Json.Trailing
import DocNavigation.Proofs.Result

/-!
Texts of lists and objects put together from the texts of their parts. However a part is spelled,
the whole means the value made up of the values of the parts.
-/

namespace DocNavigation.Json

/-- The text is a document for the value. -/
def Means (t : List Char) (v : Json) : Prop :=
  readDocument t = .ok v

theorem Means.unique (t : List Char) (v w : Json) (hv : Means t v) (hw : Means t w) : v = w :=
  Except.ok.inj (hv.symm.trans hw)

theorem means_text (v : Json) (hv : v.Everywhere Restorable) : Means (text v) v := by
  have hread := read_write v hv
  rwa [read_eq_ok_iff] at hread

theorem means_str (s : String) : Means (text (.str s)) (.str s) :=
  means_text (.str s) trivial

def listText (items : List (List Char)) : List Char :=
  '[' :: ([','].intercalate items ++ [']'])

/-- An entry is the text of a key and that of a value. -/
def entryText (e : List Char × List Char) : List Char :=
  e.1 ++ ':' :: e.2

def objectText (entries : List (List Char × List Char)) : List Char :=
  '\x7b' :: ([','].intercalate (entries.map entryText) ++ ['\x7d'])

theorem text_list (items : List Json) : text (.arr items) = listText (items.map text) :=
  text_arr items

theorem text_object (fields : List (String × Json)) :
    text (.obj fields) = objectText (fields.map fun f => (text (.str f.1), text f.2)) := by
  have hentry : (fun f : String × Json => entryText (text (.str f.1), text f.2)) = fieldText := by
    funext f
    simp [entryText, text_str, fieldText]
  rw [text_obj, objectText, List.map_map, fieldsText, ← hentry]
  rfl

section
variable (fuel : Nat)

theorem readItems_arr (cs : List Char) (acc : List Json) (v : Json) (rest : List Char)
    (h : readItems fuel cs acc = .ok (v, rest)) : ∃ items, v = .arr items := by
  induction fuel generalizing cs acc with
  | zero => cases h
  | succ fuel ih =>
    rw [readItems] at h
    split at h
    · cases h
    · split at h
      · cases h
        exact ⟨_, rfl⟩
      · exact ih _ _ h
      · cases h

theorem readFields_obj (cs : List Char) (acc : List (String × Json)) (v : Json) (rest : List Char)
    (h : readFields fuel cs acc = .ok (v, rest)) : ∃ fields, v = .obj fields := by
  induction fuel generalizing cs acc with
  | zero => cases h
  | succ fuel ih =>
    obtain ⟨tail, key, after, left, rfl, hkey, hcolon⟩ := readFields_ok fuel cs acc v rest h
    rw [readFields_of_key fuel tail after left key acc hkey hcolon, valueThen] at h
    split at h
    · cases h
    · split at h
      · cases h
      · split at h
        · cases h
          exact ⟨_, rfl⟩
        · split at h
          · exact ih _ _ h
          · cases h

theorem readMagnitude_not_str (negative : Bool) (left : Nat) (cs : List Char) (s : String)
    (rest : List Char) : readMagnitude negative left cs ≠ .ok (.str s, rest) := by
  intro h
  unfold readMagnitude at h
  split at h
  · cases h
  · dsimp only at h
    split at h
    · split at h
      · cases h
      · cases h
    · cases h

theorem readScalar_not_str (cs : List Char) (s : String) (rest : List Char) :
    readScalar cs ≠ .ok (.str s, rest) := by
  intro h
  unfold readScalar at h
  split at h
  case h_1 hconstant =>
    obtain ⟨e, he, hread⟩ := List.exists_of_findSome?_eq_some hconstant
    have hall : ∀ e ∈ constants, e.2 ≠ .str s := by simp [constants]
    simp only [Option.ite_none_right_eq_some] at hread
    obtain rfl := Except.ok.inj h
    exact hall e he (Prod.mk.inj (Option.some.inj hread.2)).1
  case h_2 =>
    unfold readNumber at h
    split at h
    · exact readMagnitude_not_str _ _ _ s rest h
    · exact readMagnitude_not_str _ _ _ s rest h

theorem bracketed_not_str (closing : Char) (empty : Json) (parts : List Char → Reading Json)
    (hempty : ∀ s, empty ≠ .str s) (hparts : ∀ cs s rest, parts cs ≠ .ok (.str s, rest))
    (cs : List Char) (s : String) (rest : List Char) :
    bracketed closing empty parts cs ≠ .ok (.str s, rest) := by
  intro h
  unfold bracketed at h
  split at h
  · exact hparts _ _ _ h
  · split at h
    · exact hempty s (Prod.mk.inj (Except.ok.inj h)).1
    · exact hparts _ _ _ h

/-- What is read as a string stands between quotes. -/
theorem readValue_str (cs : List Char) (s : String) (rest : List Char)
    (h : readValue fuel cs = .ok (.str s, rest)) :
    ∃ tail, cs = '"' :: tail ∧ readString tail = .ok (s, rest) := by
  cases fuel with
  | zero => cases h
  | succ fuel =>
    cases cs with
    | nil => cases h
    | cons c cs =>
      by_cases hquote : c = '"'
      · subst hquote
        change (readString cs).map (fun r => (Json.str r.1, r.2)) = _ at h
        obtain ⟨⟨key, after⟩, hstring, heq⟩ := (Result.map_eq_ok_iff _ _ _).mp h
        cases heq
        exact ⟨cs, rfl, hstring⟩
      by_cases hlist : c = '['
      · subst hlist
        rw [readValue_list] at h
        refine absurd h (bracketed_not_str _ _ _ (fun s heq => by cases heq) ?_ cs s rest)
        intro cs s rest hitems
        obtain ⟨items, hitems⟩ := readItems_arr fuel cs [] _ rest hitems
        cases hitems
      by_cases hobject : c = '\x7b'
      · subst hobject
        rw [readValue_object] at h
        refine absurd h (bracketed_not_str _ _ _ (fun s heq => by cases heq) ?_ cs s rest)
        intro cs s rest hfields
        obtain ⟨fields, hfields⟩ := readFields_obj fuel cs [] _ rest hfields
        cases hfields
      · have hscalar : Json.readValue (fuel + 1) (c :: cs) = readScalar (c :: cs) := by
          simp [Json.readValue, hquote, hlist, hobject]
        exact absurd (hscalar.symm.trans h) (readScalar_not_str _ s rest)

end

/-- The value of a document that has more behind it, and what is left then. -/
theorem Means.readValue (t more : List Char) (v : Json) (h : Means t v) (hmore : Stops more) :
    ∃ fuel rest, Json.readValue fuel (skipSpace (t ++ more)) = .ok (v, rest ++ more) ∧
      skipSpace (rest ++ more) = skipSpace more := by
  obtain ⟨fuel, rest, hread, hblank⟩ := readValue_inside hmore t v h
  exact ⟨fuel, rest, hread, skipSpace_blank rest more hblank⟩

section
variable (fuel : Nat)

/-- A value and what follows it, with as much fuel as there are characters. -/
theorem valueThen_means (t more : List Char) (v : Json) (h : Means t v) (c : Char)
    (hc : c ∈ stops) (hspace : isSpace c = false) (closing : Char) (done : Json → Json)
    (next : Nat → List Char → Json → Reading Json) (hfuel : (t ++ c :: more).length ≤ fuel + 1) :
    valueThen closing done next fuel (skipSpace (t ++ c :: more)) =
      if c = closing then .ok (done v, more)
      else if c = ',' then next fuel (skipSpace more) v
      else .error (.unexpected .comma (more.length + 1)) := by
  have hstops : Stops (c :: more) := by
    intro d hd
    cases hd
    exact hc
  obtain ⟨enough, rest, hread, hrest⟩ := h.readValue t (c :: more) v hstops
  have hlength := skipSpace_length (t ++ c :: more)
  have hread' : Json.readValue fuel (skipSpace (t ++ c :: more)) = .ok (v, rest ++ c :: more) := by
    apply ((reads_settle enough).1 _ v _ hread).2
    simp only [List.length_append, List.length_cons] at hlength hfuel ⊢
    omega
  simp only [valueThen, hread', hrest, skipSpace_cons c more hspace]

/-- Items are read one by one. -/
theorem readItems_means (items : List (List Char)) (vs : List Json)
    (h : List.Forall₂ Means items vs) (hne : items ≠ []) (rest : List Char) (acc : List Json)
    (hfuel : ([','].intercalate items ++ ']' :: rest).length ≤ fuel) :
    readItems fuel (skipSpace ([','].intercalate items ++ ']' :: rest)) acc =
      .ok (.arr (acc.reverse ++ vs), rest) := by
  induction h generalizing fuel acc with
  | nil => exact absurd rfl hne
  | @cons t v items vs hv hrest ih =>
    obtain ⟨fuel, rfl⟩ : ∃ n, fuel = n + 1 := by
      refine ⟨fuel - 1, ?_⟩
      rw [List.length_append, List.length_cons] at hfuel
      omega
    cases hrest with
    | nil =>
      rw [List.intercalate_singleton] at hfuel ⊢
      rw [readItems_succ, valueThen_means fuel t rest v hv ']' (by decide) (by decide) _ _ _ hfuel,
        if_pos rfl]
      simp
    | @cons u w items vs hw hrest =>
      have hsplit : [','].intercalate (t :: u :: items) ++ ']' :: rest =
          t ++ ',' :: ([','].intercalate (u :: items) ++ ']' :: rest) := by
        simp
      rw [hsplit] at hfuel ⊢
      rw [readItems_succ, valueThen_means fuel t _ v hv ',' (by decide) (by decide) _ _ _ hfuel,
        if_neg (by decide), if_pos rfl]
      rw [ih fuel (List.cons_ne_nil _ _) (v :: acc)]
      · simp
      · rw [List.length_append, List.length_cons] at hfuel
        omega

/-- An entry means a field. -/
def MeansField (e : List Char × List Char) (f : String × Json) : Prop :=
  Means e.1 (.str f.1) ∧ Means e.2 f.2

theorem meansField_text (key : String) (t : List Char) (v : Json) (h : Means t v) :
    MeansField (text (.str key), t) (key, v) := by
  dsimp only [MeansField]
  exact ⟨means_str key, h⟩

theorem MeansField.unique (e : List Char × List Char) (f g : String × Json) (hf : MeansField e f)
    (hg : MeansField e g) : f = g := by
  have hkey := hf.1.unique _ _ _ hg.1
  rw [Json.str.injEq] at hkey
  exact Prod.ext hkey (hf.2.unique _ _ _ hg.2)

/-- An entry is read up to its value. -/
theorem readFields_entry (key value more : List Char) (f : String × Json)
    (h : MeansField (key, value) f) (acc : List (String × Json)) :
    readFields (fuel + 1) (skipSpace (key ++ ':' :: (value ++ more))) acc =
      valueThen '\x7d' (fun v => .obj (putAll [] ((f.1, v) :: acc).reverse))
        (fun fuel cs v => readFields fuel cs ((f.1, v) :: acc)) fuel
        (skipSpace (value ++ more)) := by
  have hstops : Stops (':' :: (value ++ more)) := by
    intro d hd
    cases hd
    decide
  obtain ⟨enough, rest, hread, hrest⟩ := h.1.readValue key (':' :: (value ++ more)) _ hstops
  obtain ⟨tail, hquote, hstring⟩ := readValue_str enough _ f.1 _ hread
  rw [skipSpace_cons ':' _ (by decide)] at hrest
  rw [hquote]
  exact readFields_of_key fuel tail _ _ f.1 acc hstring hrest

theorem readFields_means (entries : List (List Char × List Char)) (fields : List (String × Json))
    (h : List.Forall₂ MeansField entries fields) (hne : entries ≠ []) (rest : List Char)
    (acc : List (String × Json))
    (hfuel : ([','].intercalate (entries.map entryText) ++ '\x7d' :: rest).length ≤ fuel) :
    readFields fuel (skipSpace ([','].intercalate (entries.map entryText) ++ '\x7d' :: rest)) acc =
      .ok (.obj (putAll [] (acc.reverse ++ fields)), rest) := by
  induction h generalizing fuel acc with
  | nil => exact absurd rfl hne
  | @cons e f entries fields hf hrest ih =>
    obtain ⟨key, value⟩ := e
    obtain ⟨fuel, rfl⟩ : ∃ n, fuel = n + 1 := by
      refine ⟨fuel - 1, ?_⟩
      rw [List.length_append, List.length_cons] at hfuel
      omega
    cases hrest with
    | nil =>
      have hone : [','].intercalate ([(key, value)].map entryText) ++ '\x7d' :: rest =
          key ++ ':' :: (value ++ '\x7d' :: rest) := by
        simp [entryText]
      rw [hone] at hfuel ⊢
      simp only [List.length_append, List.length_cons] at hfuel
      rw [readFields_entry fuel key value _ f hf, valueThen_means fuel value rest f.2 hf.2 '\x7d'
        (by decide) (by decide) _ _ _ (by simp only [List.length_append, List.length_cons]; omega),
        if_pos rfl]
      simp
    | @cons d g entries fields hg hrest =>
      have hsplit : [','].intercalate (((key, value) :: d :: entries).map entryText) ++
            '\x7d' :: rest = key ++ ':' :: (value ++
          ',' :: ([','].intercalate ((d :: entries).map entryText) ++ '\x7d' :: rest)) := by
        simp [entryText]
      rw [hsplit] at hfuel ⊢
      simp only [List.length_append, List.length_cons] at hfuel
      rw [readFields_entry fuel key value _ f hf, valueThen_means fuel value _ f.2 hf.2 ','
        (by decide) (by decide) _ _ _ (by simp only [List.length_append, List.length_cons]; omega),
        if_neg (by decide), if_pos rfl]
      rw [ih fuel (List.cons_ne_nil _ _) ((f.1, f.2) :: acc)]
      · simp
      · simp only [List.length_append, List.length_cons]
        omega

end

/-- No document begins with a character that ends one. -/
theorem Means.begins (t more : List Char) (v : Json) (h : Means t v) (hmore : Stops more) :
    ∃ c left, skipSpace (t ++ more) = c :: left ∧ c ∉ stops := by
  obtain ⟨fuel, rest, hread, -⟩ := h.readValue t more v hmore
  cases hskip : skipSpace (t ++ more) with
  | nil =>
    obtain ⟨e, hrefused⟩ := readValue_nil fuel
    rw [hskip, hrefused] at hread
    cases hread
  | cons c left =>
    refine ⟨c, left, rfl, fun hc => ?_⟩
    obtain ⟨e, hrefused⟩ := readValue_stop fuel c hc left
    rw [hskip, hrefused] at hread
    cases hread

/-- What stands between brackets is read as its parts. -/
theorem bracketed_means (closing : Char) (hclosing : closing ∈ stops) (empty : Json)
    (parts : List Char → Reading Json) (t more cs : List Char) (v : Json) (h : Means t v)
    (hmore : Stops more) (hcs : cs = t ++ more) :
    bracketed closing empty parts cs = parts (skipSpace cs) := by
  obtain ⟨c, left, hskip, hc⟩ := h.begins t more v hmore
  have hother : c ≠ closing := fun heq => hc (heq ▸ hclosing)
  rw [bracketed, hcs, hskip]
  simp only [if_neg hother]

theorem means_of_readValue (c : Char) (cs : List Char) (v : Json) (fuel : Nat)
    (hspace : isSpace c = false) (hmark : c ≠ '\ufeff')
    (h : Json.readValue fuel (c :: cs) = .ok (v, [])) : Means (c :: cs) v := by
  refine (readDocument_eq_ok_iff _ v).mpr ⟨by simpa using hmark, fuel, [], ?_, rfl⟩
  rw [skipSpace_cons c cs hspace]
  exact h

theorem stops_intercalate (part : List Char) (more : List (List Char)) (closing : Char)
    (hclosing : closing ∈ stops) (rest : List Char) : ∃ behind, Stops behind ∧
      [','].intercalate (part :: more) ++ closing :: rest = part ++ behind := by
  cases more with
  | nil =>
    refine ⟨closing :: rest, ?_, by simp⟩
    intro c hc
    cases hc
    exact hclosing
  | cons q more =>
    refine ⟨',' :: ([','].intercalate (q :: more) ++ closing :: rest), ?_, by simp⟩
    intro c hc
    cases hc
    decide

theorem means_list (items : List (List Char)) (vs : List Json) (h : List.Forall₂ Means items vs) :
    Means (listText items) (.arr vs) := by
  apply means_of_readValue '[' _ _ (([','].intercalate items ++ [']']).length + 1) (by decide)
    (by decide)
  rw [readValue_list]
  cases h with
  | nil => rfl
  | @cons t v items vs hv hrest =>
    obtain ⟨behind, hbehind, hsplit⟩ := stops_intercalate t items ']' (by decide) []
    rw [bracketed_means ']' (by decide) _ _ t behind _ v hv hbehind hsplit,
      readItems_means _ _ _ (.cons hv hrest) (List.cons_ne_nil _ _) [] [] (Nat.le_refl _)]
    rfl

/-- Of entries with the same key, the value of the last stands in the place of the first. -/
theorem means_object (entries : List (List Char × List Char)) (fields : List (String × Json))
    (h : List.Forall₂ MeansField entries fields) :
    Means (objectText entries) (.obj (putAll [] fields)) := by
  apply means_of_readValue '\x7b' _ _
    (([','].intercalate (entries.map entryText) ++ ['\x7d']).length + 1) (by decide) (by decide)
  rw [readValue_object]
  cases h with
  | nil => rfl
  | @cons e f entries fields hf hrest =>
    obtain ⟨behind, hbehind, hsplit⟩ :=
      stops_intercalate (entryText e) (entries.map entryText) '\x7d' (by decide) []
    have hstops : Stops (':' :: (e.2 ++ behind)) := by
      intro c hc
      cases hc
      decide
    have hkey : [','].intercalate ((e :: entries).map entryText) ++ ['\x7d'] =
        e.1 ++ ':' :: (e.2 ++ behind) := by
      rw [List.map_cons, hsplit]
      simp [entryText]
    rw [bracketed_means '\x7d' (by decide) _ _ e.1 _ _ _ hf.1 hstops hkey,
      readFields_means _ _ _ (.cons hf hrest) (List.cons_ne_nil _ _) [] [] (Nat.le_refl _)]
    rfl

end DocNavigation.Json
