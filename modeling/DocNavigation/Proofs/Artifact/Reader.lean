import DocNavigation.Artifact.Reader
import DocNavigation.Proofs.Artifact.Records
import DocNavigation.Proofs.Json.Trailing
import DocNavigation.Proofs.Text.Utf8
import Mathlib.Data.List.Nodup

/-!
What a reader of lines meets. It sees the lines with their endings, which make no difference to a
header or a record, and takes the first one for the header even if it is blank.
-/

namespace DocNavigation.Artifact

theorem read_ended (piece line : List Char) (h : Text.Ended piece line) : ReadAlike line piece := by
  intro v
  rcases h with rfl | rfl
  · rfl
  · exact Json.read_feed piece v

theorem spellsRecord_ended (piece line : List Char) (h : Text.Ended piece line) (u : Component) :
    SpellsRecord line u ↔ SpellsRecord piece u :=
  spellsRecord_alike line piece (read_ended piece line h) u

theorem headerRead_ended (piece line : List Char) (h : Text.Ended piece line)
    (names : List String) :
    (∃ version, Header.read line = .ok ⟨version, names⟩) ↔
      ∃ version, Header.read piece = .ok ⟨version, names⟩ := by
  rw [headerRead_eq_ok_iff, headerRead_eq_ok_iff]
  exact exists_congr fun v => and_congr_left fun _ => read_ended piece line h v

theorem spellsRecords_ended (pieces lines : List (List Char))
    (h : List.Forall₂ Text.Ended pieces lines) (us : List Component) :
    List.Forall₂ SpellsRecord lines us ↔ List.Forall₂ SpellsRecord pieces us :=
  (spellsRecords_alike pieces lines
    (h.imp fun piece line hend v => (read_ended piece line hend v).symm) us).symm

/-- A text whose first line is not blank spells units if a reader of its lines meets a header with
their names and then a record of each. -/
theorem spells_iff_lines (cs : List Char) (us : List Component)
    (hfull : Text.allBlank ((Text.lines cs).headD []) = false) :
    Spells (String.ofList cs) us ↔ (us.map (·.name)).Nodup ∧
      (∃ version, Header.read ((Text.lines cs).headD []) = .ok ⟨version, us.map (·.name)⟩) ∧
      List.Forall₂ SpellsRecord (Text.significant (Text.lines cs).tail) us := by
  obtain ⟨p, ps, hps, hfirst, hrest⟩ := Text.exists_lines cs
  have hlines : ((String.ofList cs).toList.splitOn '\n').filter (fun line => !Text.allBlank line) =
      p :: Text.significant ps := by
    rw [String.toList_ofList, ← Text.pieces_eq_splitOn, hps]
    change Text.significant (p :: ps) = _
    rw [Text.significant_cons, ← hfirst.allBlank, hfull]
    rfl
  rw [headerRead_ended p _ hfirst, spellsRecords_ended _ _ hrest, headerRead_eq_ok_iff]
  constructor
  · rintro ⟨hdistinct, first, records, header, hsplit, hread, hannounces, hrecords⟩
    rw [hlines] at hsplit
    cases hsplit
    refine ⟨hdistinct, ⟨header, hread, hannounces, ?_⟩, hrecords⟩
    intro hempty
    obtain ⟨u, hu, hname⟩ := List.mem_map.mp hempty
    obtain ⟨line, -, hline⟩ := Result.exists_left_of_mem hrecords u hu
    exact segment_ne_empty line u hline hname
  · rintro ⟨hdistinct, ⟨header, hread, hannounces, -⟩, hrecords⟩
    exact ⟨hdistinct, p, Text.significant ps, header, hlines, hread, hannounces, hrecords⟩

namespace Reader

theorem firstRepeated?_eq_none_iff (names seen : List String) :
    firstRepeated? names seen = none ↔ names.Nodup ∧ ∀ n ∈ names, n ∉ seen := by
  induction names generalizing seen with
  | nil => simp [firstRepeated?]
  | cons n names ih =>
    rw [firstRepeated?, List.nodup_cons, List.forall_mem_cons]
    by_cases hn : n ∈ seen
    · simp [hn]
    · simp only [List.contains_eq_mem, hn, decide_false, Bool.false_eq_true, if_false, ih,
        List.mem_cons, not_or, not_false_eq_true, true_and]
      constructor
      · rintro ⟨hnodup, hnew⟩
        exact ⟨⟨fun hmem => (hnew n hmem).1 rfl, hnodup⟩, fun m hm => (hnew m hm).2⟩
      · rintro ⟨⟨hnot, hnodup⟩, hnew⟩
        exact ⟨hnodup, fun m hm => ⟨fun heq => hnot (heq ▸ hm), hnew m hm⟩⟩

theorem opened_eq_ok_iff (path : String) (first : List Char) (r : Reader) :
    opened path first = .ok r ↔ Text.allBlank first = false ∧ Header.read first = .ok r.header ∧
      r.path = path ∧ r.names.Nodup := by
  unfold opened
  split
  case isTrue hblank => simp [hblank]
  case isFalse hfull =>
    rw [Bool.not_eq_true] at hfull
    split
    case h_1 e he => simp [he]
    case h_2 h hh =>
      have hrepeated := firstRepeated?_eq_none_iff h.units []
      split
      case h_1 name hname =>
        rw [hname] at hrepeated
        refine ⟨nofun, ?_⟩
        rintro ⟨-, hread, -, hnodup⟩
        rw [hh] at hread
        cases hread
        exact absurd (hrepeated.mpr ⟨hnodup, by simp⟩) nofun
      case h_2 hnone =>
        constructor
        · intro heq
          cases heq
          exact ⟨hfull, hh, rfl, (hrepeated.mp hnone).1⟩
        · rintro ⟨-, hread, rfl, -⟩
          rw [hh] at hread
          cases hread
          rfl

theorem openStream_whole (path : String) (lines : List (List Char)) :
    openStream path ⟨lines, none⟩ = opened path (lines.headD []) := by
  cases lines <;> rfl

theorem map_snd_numbered (ls : List (List Char)) (k : Nat) :
    ((ls.zipIdx k).filterMap fun l => if Text.allBlank l.1 then none else some (l.2, l.1)).map
      (·.2) = Text.significant ls := by
  induction ls generalizing k with
  | nil => rfl
  | cons l ls ih =>
    rw [Text.significant_cons, ← ih (k + 1), List.zipIdx_cons, List.filterMap_cons]
    by_cases hl : Text.allBlank l = true
    · simp [hl]
    · simp [hl]

theorem map_snd_records (s : LineStream) :
    (records s).map (·.2) = Text.significant s.lines.tail := by
  rw [records, List.drop_one]
  exact map_snd_numbered s.lines.tail 2

/-- A record is numbered by its line, blank ones counted. -/
theorem records_at (first line : List Char) (between after : List (List Char))
    (fault : Option Text.Utf8.Fault) (hfull : Text.allBlank line = false) :
    (records ⟨first :: (between ++ line :: after), fault⟩)[(Text.significant between).length]? =
      some (between.length + 2, line) := by
  rw [← map_snd_numbered between 2, List.length_map, records, List.drop_one, List.tail_cons,
    List.zipIdx_append, List.filterMap_append, List.getElem?_append_right (Nat.le_refl _),
    Nat.sub_self, List.zipIdx_cons, List.filterMap_cons]
  simp only [hfull, Bool.false_eq_true, if_false, Nat.add_comm 2]
  rfl

theorem component_eq_ok_iff (r : Reader) (number : Nat) (line : List Char) (u : Component) :
    r.component number line = .ok u ↔ SpellsRecord line u := by
  rw [← readComponent_eq_ok_iff, component]
  cases readComponent line with
  | error e => exact ⟨nofun, nofun⟩
  | ok v => simp

/-- The iteration ends without an error if every line is a record and there are not more of them
than the header announces. -/
theorem collect_eq_none_iff (r : Reader) (left : Nat) (lines : List (Nat × List Char))
    (us : List Component) : r.collect none left lines = (us, none) ↔
      lines.length ≤ left ∧
        ∃ vs, List.Forall₂ SpellsRecord (lines.map (·.2)) vs ∧ us = vs.map Component.close := by
  induction lines generalizing left us with
  | nil =>
    cases left <;> simp [collect, eq_comm]
  | cons l lines ih =>
    obtain ⟨number, line⟩ := l
    cases left with
    | zero => exact ⟨nofun, fun h => nomatch h.1⟩
    | succ left =>
      rw [collect, List.map_cons, List.length_cons, Nat.succ_le_succ_iff]
      constructor
      · intro h
        split at h
        case h_1 => cases h
        case h_2 u hu =>
          obtain ⟨hus, hnone⟩ := Prod.mk.inj h
          subst hus
          obtain ⟨hlength, vs, hvs, heq⟩ := (ih left _).mp (Prod.ext rfl hnone)
          have hrecord := (component_eq_ok_iff r number line u).mp hu
          exact ⟨hlength, u :: vs, .cons hrecord hvs, congrArg (u.close :: ·) heq⟩
      · rintro ⟨hlength, vs, hvs, rfl⟩
        obtain ⟨u, us, hrecord, hus, rfl⟩ := List.forall₂_cons_left_iff.mp hvs
        have hrest := (ih left (us.map Component.close)).mpr ⟨hlength, us, hus, rfl⟩
        rw [(component_eq_ok_iff r number line u).mpr hrecord]
        simp [hrest]

theorem units_eq_none_iff (r : Reader) (lines : List (List Char)) (us : List Component) :
    r.units ⟨lines, none⟩ = (us, none) ↔ (Text.significant lines.tail).length ≤ r.size ∧
      ∃ vs, List.Forall₂ SpellsRecord (Text.significant lines.tail) vs ∧
        us = vs.map Component.close := by
  have hlength : (records ⟨lines, none⟩).length = (Text.significant lines.tail).length := by
    rw [← map_snd_records ⟨lines, none⟩, List.length_map]
  rw [units, collect_eq_none_iff, map_snd_records, hlength]

theorem get_of_not_mem (r : Reader) (s : LineStream) (n : String) (h : n ∉ r.names) :
    r.get s n = .error (.notFound n) := by
  have hnone : r.names.findIdx? (· = n) = none := by
    rw [List.findIdx?_eq_none_iff]
    intro m hm
    exact decide_eq_false fun heq => h (heq ▸ hm)
  rw [get, hnone]

theorem findIdx?_names (names : List String) (hdistinct : names.Nodup) (i : Nat) (name : String)
    (h : names[i]? = some name) : names.findIdx? (· = name) = some i := by
  obtain ⟨hi, hget⟩ := List.getElem?_eq_some_iff.mp h
  rw [List.findIdx?_eq_some_iff_getElem]
  refine ⟨hi, decide_eq_true hget, ?_⟩
  intro j hj heq
  have hj' : j < names.length := Nat.lt_trans hj hi
  have hsame : names[j] = names[i] := (of_decide_eq_true heq).trans hget.symm
  exact Nat.ne_of_lt hj ((List.Nodup.getElem_inj_iff hdistinct).mp hsame)

/-- A lookup decodes the line in the unit's place and no other. -/
theorem get_at (r : Reader) (s : LineStream) (i number : Nat) (name : String) (line : List Char)
    (hdistinct : r.names.Nodup) (hname : r.names[i]? = some name)
    (hline : (records s)[i]? = some (number, line)) :
    r.get s name = match readComponent line with
      | .error e => .error (.malformed ⟨e, some r.path, some number⟩)
      | .ok u =>
        if u.name = name then .ok u.close
        else .error (.malformed ⟨.recordName u.name name, some r.path, some number⟩) := by
  rw [get, findIdx?_names r.names hdistinct i name hname]
  simp only [hline, component]
  cases readComponent line <;> rfl

/-- A lookup depends on the record in the unit's place and on no other line. -/
theorem get_of_record (r : Reader) (s : LineStream) (i : Nat) (line : List Char) (u : Component)
    (hdistinct : r.names.Nodup) (hname : r.names[i]? = some u.name)
    (hline : (Text.significant s.lines.tail)[i]? = some line) (hu : SpellsRecord line u) :
    r.get s u.name = .ok u.close := by
  obtain ⟨number, hrecord⟩ : ∃ number, (records s)[i]? = some (number, line) := by
    rw [← map_snd_records, List.getElem?_map, Option.map_eq_some_iff] at hline
    obtain ⟨⟨number, l⟩, hget, rfl⟩ := hline
    exact ⟨number, hget⟩
  rw [get_at r s i number u.name line hdistinct hname hrecord,
    (readComponent_eq_ok_iff line u).mpr hu]
  simp

end Reader

end DocNavigation.Artifact
