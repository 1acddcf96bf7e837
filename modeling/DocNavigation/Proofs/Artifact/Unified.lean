import DocNavigation.Proofs.Artifact.Records
import DocNavigation.Proofs.Json.Trailing
import DocNavigation.Proofs.Text.Returns

/-!
Artifacts and line endings. The lines of an artifact end with line feeds alone, and a text with its
other line endings unified can have more of them. If both texts spell units, then these are the same
ones; and both do or neither does where a carriage return cuts off nothing but white space.
-/

namespace DocNavigation

namespace Json

theorem isBlank_of_isSpace (c : Char) (h : isSpace c = true) : Text.isBlank c = true := by
  rcases (isSpace_iff c).mp h with rfl | rfl | rfl | rfl <;> decide

theorem Blank.allBlank (cs : List Char) (h : Blank cs) : Text.allBlank cs = true :=
  List.all_eq_true.mpr fun c hc => isBlank_of_isSpace c (h c hc)

/-- White space begins no value, and that which is none to a JSON reader is not passed over. -/
theorem readValue_blank (fuel : Nat) (c : Char) (hc : Text.isBlank c = true) (cs : List Char) :
    Refused (readValue fuel (c :: cs)) := by
  have hother : ∀ d, Text.isBlank d = false → d ≠ c := by
    rintro d hd rfl
    rw [hd] at hc
    cases hc
  have hdigit : isDigit c = false := by
    rw [Bool.eq_false_iff]
    intro hd
    simp only [isDigit, Bool.and_eq_true, decide_eq_true_eq, Char.le_def,
      UInt32.le_iff_toNat_le] at hd
    change 48 ≤ c.toNat ∧ c.toNat ≤ 57 at hd
    simp [Text.isBlank, Text.inRanges, Text.blankRanges] at hc
    omega
  cases fuel with
  | zero => exact ⟨_, rfl⟩
  | succ fuel =>
    simp [readValue, readScalar, readConstant?, constants, readNumber, readMagnitude, wholePart?,
      hdigit, Refused, (hother '"' (by decide)).symm, (hother '[' (by decide)).symm,
      (hother '\x7b' (by decide)).symm, (hother '-' (by decide)).symm,
      (hother '0' (by decide)).symm, hother 'n' (by decide), hother 't' (by decide),
      hother 'f' (by decide), hother 'N' (by decide), hother 'I' (by decide),
      hother '-' (by decide)]

/-- What may stand in front of a document is white space to a JSON reader. -/
theorem blank_of_read (space cs : List Char) (hspace : Text.allBlank space = true) (v : Json)
    (h : readDocument (space ++ cs) = .ok v) : Blank space := by
  induction space with
  | nil => exact blank_nil
  | cons c space ih =>
    rw [Text.allBlank, List.all_cons, Bool.and_eq_true] at hspace
    by_cases hc : isSpace c = true
    · have hone : Blank [c] := by simp [Blank, hc]
      have hrest := (readDocument_leading [c] (space ++ cs) hone v).mp h
      rw [Blank, List.forall_mem_cons]
      exact ⟨hc, ih hspace.2 hrest⟩
    · obtain ⟨-, fuel, rest, hread, -⟩ := (readDocument_eq_ok_iff _ v).mp h
      obtain ⟨e, hrefused⟩ := readValue_blank fuel c hspace.1 (space ++ cs)
      rw [List.cons_append, skipSpace, List.dropWhile_cons_of_neg hc] at hread
      cases hread.symm.trans hrefused

/-- Where a text and a part of it are both documents, they mean the same, and there is nothing else
in the text but white space. -/
theorem read_around (before piece after : List Char) (hbefore : Text.allBlank before = true)
    (hafter : Stops after) (v w : Json) (h : readDocument (before ++ (piece ++ after)) = .ok v)
    (hpiece : readDocument piece = .ok w) : v = w ∧ Blank before ∧ Blank after := by
  have hspace := blank_of_read before _ hbefore v h
  rw [readDocument_leading before _ hspace, readDocument_eq_ok_iff] at h
  obtain ⟨-, fuel, rest, hread, hrest⟩ := h
  obtain ⟨fuel', left, hinside, -⟩ := readValue_inside hafter piece w hpiece
  -- the value ends in one place only, whatever the fuel
  have hsame := readValue_fuel fuel _ _ v rest hread (Nat.le_refl _)
  rw [readValue_fuel fuel' _ _ w _ hinside (Nat.le_refl _)] at hsame
  obtain ⟨rfl, rfl⟩ := Prod.mk.inj (Except.ok.inj hsame)
  rw [skipSpace_eq_nil_iff, blank_append] at hrest
  exact ⟨rfl, hspace, hrest.2⟩

end Json

namespace Artifact

/-- Carriage returns cut nothing off the line but white space. -/
def Whole (line : List Char) : Prop :=
  ∃ before piece after, Text.pieces '\r' line = before ++ piece :: after ∧
    ∀ p ∈ before ++ after, Json.Blank p

section
variable (line piece : List Char) (before after : List (List Char))
  (h : Text.pieces '\r' line = before ++ piece :: after)
include h

theorem read_pieces (v : Json) : Json.read (String.ofList line) = .ok v ↔
    Json.readDocument (before.flatMap (· ++ ['\r']) ++ (piece ++ after.flatMap ('\r' :: ·))) =
      .ok v := by
  rw [Json.read_eq_ok_iff, String.toList_ofList, ← Text.eq_of_pieces '\r' line piece before after h]

theorem stops_returns : Json.Stops (after.flatMap ('\r' :: ·)) := by
  intro c hc
  cases after with
  | nil => cases hc
  | cons p after =>
    cases hc
    decide

/-- A line and its first part that counts cannot mean different values. -/
theorem read_piece (hbefore : ∀ p ∈ before, Text.allBlank p = true) (v w : Json)
    (hline : Json.read (String.ofList line) = .ok v)
    (hpiece : Json.read (String.ofList piece) = .ok w) :
    v = w ∧ ∀ p ∈ before ++ after, Json.Blank p := by
  rw [read_pieces line piece before after h] at hline
  rw [Json.read_eq_ok_iff, String.toList_ofList] at hpiece
  have hblank : Text.allBlank (before.flatMap (· ++ ['\r'])) = true := by
    have hreturn : Text.isBlank '\r' = true := by decide
    rw [Text.allBlank, List.all_flatMap, List.all_eq_true]
    intro p hp
    simp [hreturn, show p.all Text.isBlank = true from hbefore p hp]
  obtain ⟨hvalue, hfront, hback⟩ := Json.read_around _ piece _ hblank
    (stops_returns line piece before after h) v w hline hpiece
  refine ⟨hvalue, ?_⟩
  intro p hp c hc
  rcases List.mem_append.mp hp with hp | hp
  · exact hfront c (List.mem_flatMap.mpr ⟨p, hp, List.mem_append_left _ hc⟩)
  · exact hback c (List.mem_flatMap.mpr ⟨p, hp, List.mem_cons_of_mem _ hc⟩)

theorem readAlike_piece (hblank : ∀ p ∈ before ++ after, Json.Blank p) : ReadAlike line piece := by
  intro v
  rw [List.forall_mem_append] at hblank
  have hreturn : Json.isSpace '\r' = true := by decide
  have hfront : Json.Blank (before.flatMap (· ++ ['\r'])) := by
    intro c hc
    obtain ⟨p, hp, hc⟩ := List.mem_flatMap.mp hc
    rcases List.mem_append.mp hc with hc | hc
    · exact hblank.1 p hp c hc
    · rw [List.mem_singleton.mp hc]
      exact hreturn
  have hback : Json.Blank (after.flatMap ('\r' :: ·)) := by
    intro c hc
    obtain ⟨p, hp, hc⟩ := List.mem_flatMap.mp hc
    rcases List.mem_cons.mp hc with rfl | hc
    · exact hreturn
    · exact hblank.2 p hp c hc
  rw [read_pieces line piece before after h, Json.readDocument_leading _ _ hfront,
    Json.readDocument_trailing _ _ hback, Json.read_eq_ok_iff, String.toList_ofList]

end

/-- The first part of a line that counts, with what stands around it. -/
theorem exists_pieces (line piece : List Char) (more : List (List Char))
    (h : Text.parts line = piece :: more) : ∃ before after,
    Text.pieces '\r' line = before ++ piece :: after ∧
    (∀ p ∈ before, Text.allBlank p = true) ∧ Text.significant after = more := by
  obtain ⟨before, after, hpieces, hbefore, -, hafter⟩ := List.filter_eq_cons_iff.mp h
  refine ⟨before, after, hpieces, ?_, hafter⟩
  intro p hp
  simpa using hbefore p hp

theorem significant_blank (ls : List (List Char)) (h : ∀ p ∈ ls, Json.Blank p) :
    Text.significant ls = [] := by
  rw [Text.significant, List.filter_eq_nil_iff]
  intro p hp
  simp [(h p hp).allBlank]

/-- A line that is read together with its first part is a whole one, and that is its only part. -/
theorem whole_of_read (line piece : List Char) (more : List (List Char)) (v w : Json)
    (h : Text.parts line = piece :: more) (hline : Json.read (String.ofList line) = .ok v)
    (hpiece : Json.read (String.ofList piece) = .ok w) : v = w ∧ more = [] ∧ Whole line := by
  obtain ⟨before, after, hpieces, hbefore, rfl⟩ := exists_pieces line piece more h
  obtain ⟨hvalue, hblank⟩ := read_piece line piece before after hpieces hbefore v w hline hpiece
  refine ⟨hvalue, significant_blank after ?_, before, piece, after, hpieces, hblank⟩
  exact fun p hp => hblank p (List.mem_append_right _ hp)

theorem Whole.parts (line : List Char) (h : Whole line) (hfull : Text.allBlank line = false) :
    ∃ piece, Text.parts line = [piece] ∧ ReadAlike line piece := by
  obtain ⟨before, piece, after, hpieces, hblank⟩ := h
  refine ⟨piece, ?_, readAlike_piece line piece before after hpieces hblank⟩
  rw [List.forall_mem_append] at hblank
  have hparts : Text.parts line = if Text.allBlank piece then [] else [piece] := by
    rw [Text.parts, hpieces, Text.significant_append, Text.significant_cons,
      significant_blank before hblank.1, significant_blank after hblank.2, List.nil_append]
  by_cases hpiece : Text.allBlank piece = true
  · rw [if_pos hpiece, Text.parts_eq_nil_iff, hfull] at hparts
    cases hparts
  · rw [hparts, if_neg hpiece]

theorem parts_cons (line : List Char) (hfull : Text.allBlank line = false) :
    ∃ piece more, Text.parts line = piece :: more := by
  apply List.exists_cons_of_ne_nil
  rw [Ne, Text.parts_eq_nil_iff, hfull]
  exact Bool.false_ne_true

/-- Records that are cut at carriage returns, and still spell units, spell the same ones. -/
theorem records_parts (records : List (List Char)) (us vs : List Component)
    (hfull : ∀ line ∈ records, Text.allBlank line = false)
    (hus : List.Forall₂ SpellsRecord records us)
    (hvs : List.Forall₂ SpellsRecord (records.flatMap Text.parts) vs) :
    us = vs ∧ ∀ line ∈ records, Whole line := by
  induction hus generalizing vs with
  | nil =>
    cases hvs
    exact ⟨rfl, nofun⟩
  | @cons line u records us hu _ ih =>
    rw [List.forall_mem_cons] at hfull
    obtain ⟨piece, more, hparts⟩ := parts_cons line hfull.1
    rw [List.flatMap_cons, hparts, List.cons_append] at hvs
    cases hvs with
    | @cons _ v _ vs hv hrest =>
      obtain ⟨x, hline, hx⟩ := hu
      obtain ⟨y, hpiece, hy⟩ := hv
      -- the first part takes all that counts of the line with it
      obtain ⟨rfl, rfl, hwhole⟩ := whole_of_read line piece more x y hparts hline hpiece
      obtain ⟨rfl, hall⟩ := ih vs hfull.2 hrest
      rw [spellsRecord_unique ⟨x, hline, hx⟩ ⟨x, hline, hy⟩]
      exact ⟨rfl, List.forall_mem_cons.mpr ⟨hwhole, hall⟩⟩

/-- The text as it is when all of its line endings count. -/
def unified (text : String) : String :=
  String.ofList (Text.unifyNewlines text.toList)

theorem significantLines_unified (text : String) : significantLines (unified text).toList =
    (significantLines text.toList).flatMap Text.parts := by
  rw [unified, String.toList_ofList]
  exact Text.significant_unifyNewlines text.toList

theorem full_of_significant (text : List Char) :
    ∀ line ∈ significantLines text, Text.allBlank line = false := by
  intro line hline
  simpa using (List.mem_filter.mp hline).2

/-- Texts that both spell units spell the same ones, and no line was cut. -/
theorem spells_unified (text : String) (us vs : List Component) (hus : Spells text us)
    (hvs : Spells (unified text) vs) :
    us = vs ∧ ∀ line ∈ significantLines text.toList, Whole line := by
  have hfull := full_of_significant text.toList
  have hcut := significantLines_unified text
  obtain ⟨-, first, records, header, hlines, hread, -, hrecords⟩ := hus
  obtain ⟨-, first', records', header', hlines', hread', -, hrecords'⟩ := hvs
  rw [← significantLines_eq] at hlines hlines'
  rw [hlines, List.forall_mem_cons] at hfull
  obtain ⟨piece, more, hparts⟩ := parts_cons first hfull.1
  rw [hlines', hlines, List.flatMap_cons, hparts] at hcut
  obtain ⟨rfl, rfl⟩ := List.cons.inj hcut
  obtain ⟨-, rfl, hwhole⟩ := whole_of_read first first' more header header' hparts hread hread'
  obtain ⟨hsame, hall⟩ := records_parts records us vs hfull.2 hrecords hrecords'
  rw [hlines]
  exact ⟨hsame, List.forall_mem_cons.mpr ⟨hwhole, hall⟩⟩

theorem spells_alike (text other : String) (h : List.Forall₂ ReadAlike
    (significantLines text.toList) (significantLines other.toList)) (us : List Component)
    (hus : Spells text us) : Spells other us := by
  obtain ⟨hdistinct, first, records, header, hlines, hread, hannounces, hrecords⟩ := hus
  rw [← significantLines_eq] at hlines
  rw [hlines] at h
  cases hother : significantLines other.toList with
  | nil =>
    rw [hother] at h
    cases h
  | cons first' records' =>
    rw [hother, List.forall₂_cons] at h
    rw [significantLines_eq] at hother
    exact ⟨hdistinct, first', records', header, hother, (h.1 header).mp hread, hannounces,
      (spellsRecords_alike records records' h.2 us).mp hrecords⟩

/-- Lines that are not cut spell what they did. -/
theorem spells_whole (text : String) (hwhole : ∀ line ∈ significantLines text.toList, Whole line)
    (us : List Component) : Spells (unified text) us ↔ Spells text us := by
  have hall : ∀ lines : List (List Char), (∀ line ∈ lines, Text.allBlank line = false) →
      (∀ line ∈ lines, Whole line) → List.Forall₂ ReadAlike lines (lines.flatMap Text.parts) := by
    intro lines hfull hwhole
    induction lines with
    | nil => exact .nil
    | cons line lines ih =>
      rw [List.forall_mem_cons] at hfull hwhole
      obtain ⟨piece, hparts, halike⟩ := hwhole.1.parts line hfull.1
      rw [List.flatMap_cons, hparts]
      exact .cons halike (ih hfull.2 hwhole.2)
  have halike := hall _ (full_of_significant text.toList) hwhole
  rw [← significantLines_unified] at halike
  refine ⟨spells_alike _ _ ?_ us, spells_alike _ _ halike us⟩
  exact halike.flip.imp fun _ _ h v => (h v).symm

/-- Line endings of two characters cut nothing off a line. -/
theorem whole_of_noLoneReturn (text : String) (h : Text.NoLoneReturn text.toList) :
    ∀ line ∈ significantLines text.toList, Whole line := by
  intro line hline
  have hlast := h.last _ line (List.mem_filter.mp hline).1
  rcases Text.pieces_return line hlast with hpieces | ⟨piece, hpieces⟩
  · exact ⟨[], line, [], hpieces, nofun⟩
  · exact ⟨[], piece, [[]], hpieces, by simp [Json.blank_nil]⟩

section
variable (text : String) (source other : Option String)

/-- Where a text gives a registry with its line endings unified and without, it gives the same one,
and its carriage returns cut nothing off. -/
theorem decode_both (r s : Registry) (hr : decode text source = .ok r)
    (hs : decode (unified text) other = .ok s) :
    r = s ∧ ∀ line ∈ significantLines text.toList, Whole line := by
  obtain ⟨us, hus, rfl⟩ := (decode_eq_ok_iff text source r).mp hr
  obtain ⟨vs, hvs, rfl⟩ := (decode_eq_ok_iff _ other s).mp hs
  obtain ⟨rfl, hwhole⟩ := spells_unified text us vs hus hvs
  exact ⟨rfl, hwhole⟩

theorem decode_whole (hwhole : ∀ line ∈ significantLines text.toList, Whole line) (r : Registry) :
    decode (unified text) other = .ok r ↔ decode text source = .ok r := by
  rw [decode_eq_ok_iff, decode_eq_ok_iff]
  exact exists_congr fun us => and_congr_left fun _ => spells_whole text hwhole us

end

end Artifact

end DocNavigation
