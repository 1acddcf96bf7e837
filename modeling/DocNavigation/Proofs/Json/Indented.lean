import DocNavigation.Proofs.Json.Composed

/-!
Reading what was written over several lines. The line ends and blanks of an indented text stand
around the parts of its lists and objects, where they change nothing that the text means.
-/

namespace DocNavigation.Json

/-- What a single value needs for its indented text to be read back. A double needs a numeral that
spells it. -/
def Storable : Json → Prop
  | .float x => Means (x.text numeralSpelling).toList (.float x)
  | .int n => (Nat.toDigits 10 n.natAbs).length ≤ Number.maxDigits
  | .obj fields => (fields.map (·.1)).Nodup
  | _ => True

section
variable {α β : Type}

/-- Each element opened, and the last one closed as well. -/
def lined (opened closed : α → α) : List α → List α
  | [] => []
  | [x] => [closed (opened x)]
  | x :: y :: xs => opened x :: lined opened closed (y :: xs)

theorem map_lined (opened closed : α → α) (opened' closed' : β → β) (f : α → β)
    (hopened : ∀ x, f (opened x) = opened' (f x)) (hclosed : ∀ x, f (closed x) = closed' (f x))
    (xs : List α) : (lined opened closed xs).map f = lined opened' closed' (xs.map f) := by
  induction xs with
  | nil => rfl
  | cons x xs ih =>
    cases xs with
    | nil => simp [lined, hopened, hclosed]
    | cons y xs =>
      rw [lined, List.map_cons, ih, hopened]
      rfl

theorem forall₂_lined (R : α → β → Prop) (opened closed : α → α)
    (hopened : ∀ x y, R x y → R (opened x) y) (hclosed : ∀ x y, R x y → R (closed x) y)
    (xs : List α) (ys : List β) (h : List.Forall₂ R xs ys) :
    List.Forall₂ R (lined opened closed xs) ys := by
  induction h with
  | nil => exact .nil
  | @cons x y xs ys hx hrest ih =>
    cases hrest with
    | nil => exact .cons (hclosed _ y (hopened x y hx)) .nil
    | cons hy hrest => exact .cons (hopened x y hx) ih

end

section
variable (before after : List Char)

theorem intercalate_lined (part : List Char) (parts : List (List Char)) :
    [','].intercalate (lined (before ++ ·) (· ++ after) (part :: parts)) =
      before ++ ((',' :: before).intercalate (part :: parts) ++ after) := by
  induction parts generalizing part with
  | nil => simp [lined]
  | cons next parts ih =>
    have hne : lined (before ++ ·) (· ++ after) (next :: parts) ≠ [] := by
      cases parts with
      | nil => exact List.cons_ne_nil _ _
      | cons => exact List.cons_ne_nil _ _
    rw [lined, List.intercalate_cons_of_ne_nil hne, ih, List.intercalate_cons_cons]
    simp

variable (hbefore : Blank before) (hafter : Blank after)
include hbefore hafter

theorem means_lined (items : List (List Char)) (vs : List Json)
    (h : List.Forall₂ Means items vs) :
    Means (listText (lined (before ++ ·) (· ++ after) items)) (.arr vs) := by
  apply means_list
  apply forall₂_lined Means _ _ _ _ items vs h
  · exact fun t v ht => (readDocument_leading before t hbefore v).mpr ht
  · exact fun t v ht => (readDocument_trailing t after hafter v).mpr ht

/-- An entry has its opening in front of the key and its closing behind the value. -/
theorem meansFields_lined (entries : List (List Char × List Char)) (fields : List (String × Json))
    (h : List.Forall₂ MeansField entries fields) :
    List.Forall₂ MeansField
      (lined (fun e => (before ++ e.1, e.2)) (fun e => (e.1, e.2 ++ after)) entries) fields := by
  apply forall₂_lined MeansField _ _ _ _ entries fields h
  · exact fun e f he => ⟨(readDocument_leading before e.1 hbefore _).mpr he.1, he.2⟩
  · exact fun e f he => ⟨he.1, (readDocument_trailing e.2 after hafter _).mpr he.2⟩

end

theorem blank_newline (depth : Nat) : Blank (newline depth).toList := by
  rw [newline, String.toList_ofList, Blank, List.forall_mem_cons]
  refine ⟨rfl, fun c hc => ?_⟩
  rw [List.eq_of_mem_replicate hc]
  rfl

/-- A block is a bracketed list of parts, each of which begins with a line end. -/
theorem toList_block (opening closing : Char) (step depth : Nat) (parts : List String) :
    (block opening.toString closing.toString step depth parts).toList =
      opening :: ([','].intercalate (lined ((newline (depth + step)).toList ++ ·)
        (· ++ (newline depth).toList) (parts.map String.toList)) ++ [closing]) := by
  cases parts with
  | nil => simp [block, lined, Char.toString]
  | cons part parts =>
    rw [List.map_cons, intercalate_lined]
    simp [block, Char.toString, String.toList_intercalate]

/-- The entry of a field, with the space that follows the colon. -/
def indentedEntry (step depth : Nat) (f : String × Json) : List Char × List Char :=
  (text (.str f.1), ' ' :: (f.2.writeIndented step depth).toList)

section
variable (step depth : Nat)

theorem toList_indentedItems (items : List Json) :
    (indentedItems step depth items).map String.toList =
      items.map fun v => (v.writeIndented step depth).toList := by
  induction items with
  | nil => rfl
  | cons v vs ih => rw [indentedItems, List.map_cons, ih, List.map_cons]

theorem toList_indentedFields (fields : List (String × Json)) :
    (indentedFields step depth fields).map String.toList =
      (fields.map (indentedEntry step depth)).map entryText := by
  induction fields with
  | nil => rfl
  | cons f fs ih =>
    rw [indentedFields, List.map_cons, ih, List.map_cons, List.map_cons]
    simp [entryText, indentedEntry, text_str, toList_quotedString]

theorem toList_indented_arr (items : List Json) :
    ((Json.arr items).writeIndented step depth).toList =
      listText (lined ((newline (depth + step)).toList ++ ·) (· ++ (newline depth).toList)
        (items.map fun v => (v.writeIndented step (depth + step)).toList)) := by
  rw [writeIndented, listText, ← toList_indentedItems]
  exact toList_block '[' ']' step depth _

theorem toList_indented_obj (fields : List (String × Json)) :
    ((Json.obj fields).writeIndented step depth).toList =
      objectText (lined (fun e => ((newline (depth + step)).toList ++ e.1, e.2))
        (fun e => (e.1, e.2 ++ (newline depth).toList))
        (fields.map (indentedEntry step (depth + step)))) := by
  rw [writeIndented, objectText, map_lined _ _ ((newline (depth + step)).toList ++ ·)
    (· ++ (newline depth).toList) entryText (by simp [entryText]) (by simp [entryText]),
    ← toList_indentedFields]
  exact toList_block '\x7b' '\x7d' step depth _

end

mutual

/-- The indented text of a value means the value, at every depth. -/
theorem means_indented (step depth : Nat) : (v : Json) → v.Everywhere Storable →
    Means (v.writeIndented step depth).toList v
  | .null, _ => means_text .null trivial
  | .bool true, _ => means_text (.bool true) trivial
  | .bool false, _ => means_text (.bool false) trivial
  | .int n, h => means_text (.int n) h
  | .float _, h => h
  | .str s, _ => means_str s
  | .arr items, h => by
    rw [toList_indented_arr]
    exact means_lined _ _ (blank_newline _) (blank_newline _) _ _
      (means_indentedItems step _ items h.2)
  | .obj fields, h => by
    rw [toList_indented_obj]
    have hmeans := means_object _ _ (meansFields_lined _ _ (blank_newline (depth + step))
      (blank_newline depth) _ _ (means_indentedFields step (depth + step) fields h.2))
    rwa [putAll_of_nodup [] fields h.1, List.nil_append] at hmeans

theorem means_indentedItems (step depth : Nat) : (items : List Json) →
    EverywhereItems Storable items →
    List.Forall₂ Means (items.map fun v => (v.writeIndented step depth).toList) items
  | [], _ => .nil
  | v :: vs, h => .cons (means_indented step depth v h.1) (means_indentedItems step depth vs h.2)

theorem means_indentedFields (step depth : Nat) : (fields : List (String × Json)) →
    EverywhereFields Storable fields →
    List.Forall₂ MeansField (fields.map (indentedEntry step depth)) fields
  | [], _ => .nil
  | (key, v) :: fs, h => by
    refine .cons ⟨means_str key, ?_⟩ (means_indentedFields step depth fs h.2)
    exact (readDocument_leading [' '] _ (by decide) v).mpr (means_indented step depth v h.1)

end

theorem printable_numeral (n : Number.Binary64.Numeral) : Printable n.text := by
  have hdigits := printable_digits n.digits
  have hzeros : ∀ count, Printable (Number.Binary64.zeros count) := by
    intro count c hc
    rw [List.eq_of_mem_replicate hc]
    decide
  have hpart : ∀ cs, (∀ c ∈ cs, c ∈ Nat.toDigits 10 n.digits) → Printable cs :=
    fun cs hcs c hc => hdigits c (hcs c hc)
  have htwo : ∀ count, Printable (Number.Binary64.twoDigits count) := by
    intro count
    unfold Number.Binary64.twoDigits
    split
    · exact (printable_cons _ _).mpr ⟨by decide, printable_digits count⟩
    · exact printable_digits count
  unfold Number.Binary64.Numeral.text
  dsimp only
  split
  · split
    · simp only [List.cons_append, printable_cons, printable_append]
      exact ⟨by decide, by decide, hzeros _, hdigits⟩
    · split
      · rw [printable_append, printable_cons]
        exact ⟨hpart _ fun c => List.mem_of_mem_take, by decide,
          hpart _ fun c => List.mem_of_mem_drop⟩
      · simp only [printable_append, printable_cons]
        exact ⟨⟨hdigits, hzeros _⟩, by decide, by decide, by simp [Printable]⟩
  · simp only [printable_append, printable_cons]
    refine ⟨⟨hpart _ fun c => List.mem_of_mem_take, ?_⟩, by decide, ?_, htwo _⟩
    · split
      · simp [Printable]
      · exact (printable_cons _ _).mpr ⟨by decide, hpart _ fun c => List.mem_of_mem_tail⟩
    · split <;> decide

theorem printable_double (x : Number.Binary64) : Printable (x.text numeralSpelling).toList := by
  have hsign : ∀ negative : Bool, Printable (if negative then "-" else "").toList := by
    intro negative
    cases negative <;> simp [Printable]
  cases x with
  | nan => simp [Number.Binary64.text, numeralSpelling, Printable]
  | infinite negative =>
    rw [Number.Binary64.text, String.toList_append, printable_append]
    exact ⟨hsign negative, by simp [numeralSpelling, Printable]⟩
  | finite negative mantissa exponent =>
    rw [Number.Binary64.text, String.toList_append, printable_append]
    refine ⟨hsign negative, ?_⟩
    split
    · simp [Printable]
    · rw [String.toList_ofList]
      exact printable_numeral _

theorem forall_lined {α : Type} (p : α → Prop) (opened closed : α → α)
    (hopened : ∀ x, p x → p (opened x)) (hclosed : ∀ x, p x → p (closed x)) (xs : List α)
    (h : ∀ x ∈ xs, p x) : ∀ x ∈ lined opened closed xs, p x := by
  induction xs with
  | nil => exact h
  | cons x xs ih =>
    rw [List.forall_mem_cons] at h
    cases xs with
    | nil =>
      intro y hy
      obtain rfl := List.mem_singleton.mp hy
      exact hclosed _ (hopened _ h.1)
    | cons y xs => exact List.forall_mem_cons.mpr ⟨hopened _ h.1, ih h.2⟩

theorem noReturn_of_printable (cs : List Char) (h : Printable cs) : '\r' ∉ cs := by
  intro hreturn
  exact absurd (h _ hreturn) (by decide)

theorem noReturn_newline (depth : Nat) : '\r' ∉ (newline depth).toList := by
  rw [newline, String.toList_ofList, List.mem_cons, List.mem_replicate]
  rintro (h | ⟨-, h⟩) <;> exact absurd h (by decide)

theorem noReturn_block (opening closing : Char) (hopening : '\r' ≠ opening)
    (hclosing : '\r' ≠ closing) (step depth : Nat) (parts : List String)
    (h : ∀ p ∈ parts.map String.toList, '\r' ∉ p) :
    '\r' ∉ (block opening.toString closing.toString step depth parts).toList := by
  have hall := forall_lined ('\r' ∉ ·) ((newline (depth + step)).toList ++ ·)
    (· ++ (newline depth).toList)
    (fun _ hx hmem => (List.mem_append.mp hmem).elim (noReturn_newline _) hx)
    (fun _ hx hmem => (List.mem_append.mp hmem).elim hx (noReturn_newline _)) _ h
  rw [toList_block, List.mem_cons, List.mem_append, List.mem_singleton]
  rintro (hmem | hmem | hmem)
  · exact hopening hmem
  · rcases Text.mem_intercalate ',' _ _ hmem with hcomma | ⟨p, hp, hmem⟩
    · exact absurd hcomma (by decide)
    · exact hall p hp hmem
  · exact hclosing hmem

mutual

/-- Reading line ends leaves the text of a value as it is. -/
theorem noReturn_indented (step depth : Nat) :
    (v : Json) → '\r' ∉ (v.writeIndented step depth).toList
  | .null => by simp [writeIndented]
  | .bool true => by simp [writeIndented]
  | .bool false => by simp [writeIndented]
  | .int n => noReturn_of_printable _ (printable_int n)
  | .float x => noReturn_of_printable _ (printable_double x)
  | .str s => noReturn_of_printable _ (quotedString_printable s)
  | .arr items => by
    apply noReturn_block '[' ']' (by decide) (by decide)
    rw [toList_indentedItems, List.forall_mem_map]
    exact noReturn_indentedItems step _ items
  | .obj fields => by
    apply noReturn_block '\x7b' '\x7d' (by decide) (by decide)
    rw [toList_indentedFields, List.map_map, List.forall_mem_map]
    exact noReturn_indentedFields step _ fields

theorem noReturn_indentedItems (step depth : Nat) : (items : List Json) →
    ∀ v ∈ items, '\r' ∉ (v.writeIndented step depth).toList
  | [] => by simp
  | v :: vs =>
    List.forall_mem_cons.mpr ⟨noReturn_indented step depth v, noReturn_indentedItems step depth vs⟩

theorem noReturn_indentedFields (step depth : Nat) : (fields : List (String × Json)) →
    ∀ f ∈ fields, '\r' ∉ (entryText ∘ indentedEntry step depth) f
  | [] => by simp
  | (key, v) :: fs => by
    refine List.forall_mem_cons.mpr ⟨?_, noReturn_indentedFields step depth fs⟩
    have hkey : '\r' ∉ text (.str key) := noReturn_of_printable _ (quotedString_printable key)
    have hvalue := noReturn_indented step depth v
    simp [entryText, indentedEntry, hkey, hvalue]

end

end DocNavigation.Json
