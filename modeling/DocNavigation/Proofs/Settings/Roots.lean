import DocNavigation.Proofs.Json.Renamed
import DocNavigation.Proofs.Settings.Checked

/-!
The roots that a check makes of the entries given for them. An entry stands for a root, or there is a
warning of it. What is lost without a warning are roots that come before another root of their name.
-/

namespace DocNavigation

/-- The warning is of an entry that stands for no root. -/
def Warning.ofRoot : Warning → Bool
  | .replaced (.root ..) => true
  | _ => false

namespace Judging

/-- What a check that goes on gives, with the warnings of roots that it adds. -/
def Tells {α : Type} (x : Judging α) (P : α → List Warning → Prop) : Prop :=
  ∀ before a after, x.run before = .ok (a, after) →
    ∃ ws, after.filter Warning.ofRoot = before.filter Warning.ofRoot ++ ws ∧ P a ws

/-- The check warns of no root. -/
def Mute {α : Type} (x : Judging α) : Prop :=
  x.Tells fun _ ws => ws = []

section
variable {α β : Type}

theorem Tells.pure (a : α) (P : α → List Warning → Prop) (h : P a []) :
    Tells (Pure.pure a : Judging α) P := by
  intro before b after hrun
  cases hrun
  exact ⟨[], (List.append_nil _).symm, h⟩

theorem Tells.bind (x : Judging α) (f : α → Judging β) (P : α → List Warning → Prop)
    (Q : β → List Warning → Prop) (hx : x.Tells P)
    (hf : ∀ a ws, P a ws → (f a).Tells fun b us => Q b (ws ++ us)) : (x >>= f).Tells Q := by
  intro before b after hrun
  rw [StateT.run_bind] at hrun
  cases hfirst : x.run before with
  | error e =>
    rw [hfirst] at hrun
    cases hrun
  | ok r =>
    rw [hfirst] at hrun
    obtain ⟨ws, hws, ha⟩ := hx before r.1 r.2 hfirst
    obtain ⟨us, hus, hb⟩ := hf r.1 ws ha r.2 b after hrun
    exact ⟨ws ++ us, by rw [hus, hws, List.append_assoc], hb⟩

theorem Mute.before (x : Judging α) (f : α → Judging β) (Q : β → List Warning → Prop) (hx : x.Mute)
    (hf : ∀ a, (f a).Tells Q) : (x >>= f).Tells Q := by
  refine Tells.bind _ _ _ _ hx fun a ws hws => ?_
  subst hws
  exact hf a

theorem Mute.pure (a : α) : Mute (Pure.pure a : Judging α) :=
  Tells.pure a _ rfl

theorem Mute.throw (e : SettingError) : Mute (throw e : Judging α) := by
  intro before a after hrun
  cases hrun

theorem Mute.warn (w : Warning) (h : w.ofRoot = false) : Mute (Settings.warn w) := by
  intro before a after hrun
  cases hrun
  refine ⟨[], ?_, rfl⟩
  rw [List.filter_append, List.filter_cons_of_neg (by simp [h]), List.filter_nil]

theorem Mute.mapM (f : α → Judging β) (as : List α) (hf : ∀ a, (f a).Mute) : (as.mapM f).Mute := by
  induction as with
  | nil => exact .pure []
  | cons a as ih =>
    rw [List.mapM_cons]
    exact Mute.before _ _ _ (hf a) fun b => Mute.before _ _ _ ih fun bs => Mute.pure (b :: bs)

end

end Judging

namespace Settings

open Judging

section
variable (strict : Bool)

theorem mute_fault {α : Type} (f : Finding) (replacement : α)
    (h : (Warning.replaced f).ofRoot = false) : (fault strict f replacement).Mute := by
  cases strict with
  | true => exact Mute.throw _
  | false => exact Mute.before _ _ _ (Mute.warn _ h) fun _ => Mute.pure _

theorem mute_checkText (field fallback : String) (v : Option Json) :
    (checkText strict field fallback v).Mute := by
  unfold checkText
  split
  · exact .pure _
  · exact .pure _
  · exact .pure _
  · exact mute_fault _ _ _ rfl

theorem mute_checkSwitch (field : String) (fallback : Bool) (v : Option Json) :
    (checkSwitch strict field fallback v).Mute := by
  unfold checkSwitch
  split
  · exact .pure _
  · exact .pure _
  · exact .pure _
  · extract_lets fail
    have hfail : fail.Mute := mute_fault _ _ _ rfl
    split
    · exact hfail
    · split
      · exact Mute.before _ _ _ (Mute.warn _ rfl) fun _ => Mute.pure _
      · split
        · split
          · exact Mute.before _ _ _ (Mute.warn _ rfl) fun _ => Mute.pure _
          · exact hfail
        · exact hfail

theorem mute_checkCount (field : String) (fallback : Nat) (v : Option Json) :
    (checkCount strict field fallback v).Mute := by
  unfold checkCount
  split
  · exact .pure _
  · exact .pure _
  · exact .pure _
  · extract_lets text
    split
    · refine Mute.before _ _ _ (Mute.warn _ rfl) fun _ => ?_
      split
      · exact Mute.pure _
      · exact Mute.throw _
    · exact mute_fault _ _ _ rfl
  · exact mute_fault _ _ _ rfl

theorem mute_checkTexts (field : String) (fallback : List String) (v : Option Json) :
    (checkTexts strict field fallback v).Mute := by
  have hitem : ∀ item, (checkItem strict field item).Mute := by
    intro item
    unfold checkItem
    split
    · exact .pure _
    · exact mute_fault _ _ _ rfl
  unfold checkTexts
  split
  · exact .pure _
  · exact .pure _
  · exact .pure _
  · exact Mute.before _ _ _ (.mapM _ _ hitem) fun _ => Mute.pure _
  · exact mute_fault _ _ _ rfl

theorem mute_checkPriority (word : String) : (checkPriority strict word).Mute := by
  unfold checkPriority
  split
  · exact .pure _
  · exact mute_fault _ _ _ rfl

end

section
variable (env : Environment)

theorem mute_located (text fallback : String) : (located env text fallback).Mute := by
  unfold located
  split
  · exact .pure _
  · exact Mute.throw _

theorem mute_locatedFolder (text : String) : (locatedFolder env text).Mute := by
  unfold locatedFolder
  split
  · exact .pure _
  · exact mute_located env _ _

theorem mute_locatedSource (source : String) : (locatedSource env source).Mute := by
  unfold locatedSource
  split
  · exact .pure _
  · exact mute_located env _ _

/-- The root that an entry stands for: a name and a path that are not blank, the name without white
space around it and the path as the folder that it leads to. -/
def rootOf? (entry : String × Json) : Option (String × String) :=
  match entry.2 with
  | .str path =>
    if Text.trim entry.1 = "" ∨ Text.trim path = "" then none
    else some (Text.trim entry.1,
      Path.absolute env.workdir (Path.expand env (Path.given path env.workdir)))
  | _ => none

def rootsOf (entries : List (String × Json)) : List (String × String) :=
  entries.filterMap (rootOf? env)

/-- The entries that stand for no root. -/
def rejected (entries : List (String × Json)) : List (String × Json) :=
  entries.filter fun entry => (rootOf? env entry).isNone

def rootWarning (entry : String × Json) : Warning :=
  .replaced (.root entry.1 entry.2)

theorem length_rootsOf_add_rejected (entries : List (String × Json)) :
    (rootsOf env entries).length + (rejected env entries).length = entries.length := by
  induction entries with
  | nil => rfl
  | cons entry entries ih =>
    rw [rootsOf, rejected] at ih ⊢
    cases hroot : rootOf? env entry <;> simp [hroot] <;> omega

/-- Some entries have been gone through: their roots are put down, the others were warned of, and a
strict check found no others. -/
structure Entered (strict : Bool) (roots : List (String × String)) (entries : List (String × Json))
    (after : List (String × String)) (ws : List Warning) : Prop where
  roots : after = Json.putAll roots (rootsOf env entries)
  warnings : ws = (rejected env entries).map rootWarning
  strict : strict = true → rejected env entries = []

section
variable (strict : Bool)

theorem Entered.cons (roots first after : List (String × String)) (entry : String × Json)
    (entries : List (String × Json)) (ws us : List Warning)
    (h : Entered env strict roots [entry] first ws) (h' : Entered env strict first entries after us) :
    Entered env strict roots (entry :: entries) after (ws ++ us) := by
  have hroots : rootsOf env (entry :: entries) = rootsOf env [entry] ++ rootsOf env entries :=
    List.filterMap_append (l := [entry])
  have hrejected : rejected env (entry :: entries) = rejected env [entry] ++ rejected env entries :=
    List.filter_append [entry] entries
  constructor
  · rw [h'.roots, h.roots, hroots, Json.putAll, Json.putAll, Json.putAll, List.foldl_append]
  · rw [h'.warnings, h.warnings, hrejected, List.map_append]
  · intro hs
    rw [hrejected, h.strict hs, h'.strict hs, List.nil_append]

theorem tells_checkRoot (roots : List (String × String)) (entry : String × Json) :
    (checkRoot env strict roots entry).Tells (Entered env strict roots [entry]) := by
  have hfault : rootOf? env entry = none →
      (fault strict (.root entry.1 entry.2) roots).Tells (Entered env strict roots [entry]) := by
    intro hnone
    cases strict with
    | true => exact nofun
    | false =>
      intro before a after hrun
      cases hrun
      refine ⟨[rootWarning entry], List.filter_append .., ?_, ?_, nofun⟩
      · simp [rootsOf, hnone, Json.putAll]
      · simp [rejected, hnone]
  unfold checkRoot
  simp only
  split
  case h_1 path hpath =>
    split
    case isTrue hblank => exact hfault (by simp only [rootOf?, hpath, if_pos hblank])
    case isFalse hfull =>
      intro before a after hrun
      unfold located at hrun
      split at hrun
      case h_2 => cases hrun
      case h_1 folder hfolder =>
        cases hrun
        obtain ⟨-, rfl⟩ := (Path.resolve_eq_ok_iff env path env.workdir folder).mp hfolder
        have hroot : rootOf? env entry = some (Text.trim entry.1,
            Path.absolute env.workdir (Path.expand env (Path.given path env.workdir))) := by
          simp only [rootOf?, hpath, if_neg hfull]
        refine ⟨[], (List.append_nil _).symm, ?_, ?_, fun _ => ?_⟩
        · simp [rootsOf, hroot, Json.putAll]
        · simp [rejected, hroot]
        · simp [rejected, hroot]
  case h_2 hother =>
    refine hfault ?_
    unfold rootOf?
    split
    case h_1 path hpath => exact absurd hpath (hother path)
    case h_2 => rfl

theorem tells_foldlM (entries : List (String × Json)) (roots : List (String × String)) :
    (entries.foldlM (checkRoot env strict) roots).Tells (Entered env strict roots entries) := by
  induction entries generalizing roots with
  | nil => exact Tells.pure _ _ ⟨rfl, rfl, fun _ => rfl⟩
  | cons entry entries ih =>
    rw [List.foldlM_cons]
    refine Tells.bind _ _ _ _ (tells_checkRoot env strict roots entry) fun first ws hfirst => ?_
    intro before after last hrun
    obtain ⟨us, hus, hrest⟩ := ih first before after last hrun
    exact ⟨us, hus, hfirst.cons env strict _ _ _ _ _ _ _ hrest⟩

theorem tells_checkFields (fields : List (String × Json)) (entries : List (String × Json))
    (hentries : Json.getKey? fields "source_roots" = some (.obj entries)) :
    (checkFields env strict fields).Tells fun s ws =>
      Entered env strict [] entries s.sourceRoots ws := by
  unfold checkFields
  extract_lets u field
  iterate 5 refine Mute.before _ _ _ (mute_checkText strict _ _ _) fun _ => ?_
  refine Mute.before _ _ _ (mute_checkSwitch strict _ _ _) fun _ => ?_
  refine Mute.before _ _ _ (mute_checkCount strict _ _ _) fun _ => ?_
  iterate 4 refine Mute.before _ _ _ (mute_checkTexts strict _ _ _) fun _ => ?_
  have hfield : field "source_roots" = some (.obj entries) := hentries
  rw [hfield]
  refine Tells.bind _ _ _ _ (tells_foldlM env strict entries []) fun roots ws hentered => ?_
  -- what is checked after the roots adds nothing to the warnings of them
  refine Mute.before _ _ _ (mute_located env _ _) fun _ => ?_
  refine Mute.before _ _ _ (mute_locatedFolder env _) fun _ => ?_
  refine Mute.before _ _ _ (Mute.mapM _ _ (mute_locatedSource env)) fun _ => ?_
  refine Mute.before _ _ _ (mute_checkPriority strict _) fun _ => ?_
  exact Tells.pure _ _ ((List.append_nil ws).symm ▸ hentered)

end

end

/-- Nothing is lost of an entry: its root is one of the settings, or a check that is not strict warned
of it. -/
def Accounted (env : Environment) (strict : Bool) (s : Settings) (ws : List Warning)
    (entry : String × Json) : Prop :=
  (∃ root, rootOf? env entry = some root ∧ root ∈ s.sourceRoots) ∨
    (strict = false ∧ rootWarning entry ∈ ws)

section
variable (env : Environment) (strict : Bool)

theorem mem_rejected (entries : List (String × Json)) (entry : String × Json) :
    entry ∈ rejected env entries ↔ entry ∈ entries ∧ rootOf? env entry = none := by
  rw [rejected, List.mem_filter, Option.isNone_iff_eq_none]

/-- A warning tells whether its entry stands for a root. -/
theorem rootWarning_mem_iff (entries : List (String × Json)) (ws : List Warning)
    (hws : ws.filter Warning.ofRoot = (rejected env entries).map rootWarning)
    (entry : String × Json) (hentry : entry ∈ entries) :
    rootWarning entry ∈ ws ↔ rootOf? env entry = none := by
  have hfilter : rootWarning entry ∈ ws ↔ rootWarning entry ∈ ws.filter Warning.ofRoot := by
    rw [List.mem_filter]
    exact (and_iff_left rfl).symm
  have hinjective : ∀ other, rootWarning other = rootWarning entry ↔ other = entry := by
    intro other
    simp [rootWarning, Prod.ext_iff]
  rw [hfilter, hws, List.mem_map]
  simp only [hinjective, exists_eq_right, mem_rejected, hentry, true_and]

/-- The entries that stand for no root are accounted for, so that only roots can be lost. -/
theorem forall_accounted_iff (entries : List (String × Json)) (s : Settings) (ws : List Warning)
    (hws : ws.filter Warning.ofRoot = (rejected env entries).map rootWarning)
    (hstrict : strict = true → rejected env entries = []) :
    (∀ entry ∈ entries, Accounted env strict s ws entry) ↔
      ∀ root ∈ rootsOf env entries, root ∈ s.sourceRoots := by
  constructor
  · intro hall root hroot
    obtain ⟨entry, hentry, hsome⟩ := List.mem_filterMap.mp hroot
    rcases hall entry hentry with ⟨kept, hkept, hmem⟩ | ⟨-, hwarned⟩
    · rw [hsome] at hkept
      exact Option.some.inj hkept ▸ hmem
    · rw [rootWarning_mem_iff env entries ws hws entry hentry, hsome] at hwarned
      cases hwarned
  · intro hall entry hentry
    cases hroot : rootOf? env entry with
    | some root => exact .inl ⟨root, hroot, hall root (List.mem_filterMap.mpr ⟨entry, hentry, hroot⟩)⟩
    | none =>
      refine .inr ⟨?_, (rootWarning_mem_iff env entries ws hws entry hentry).mpr hroot⟩
      cases strict with
      | false => rfl
      | true =>
        -- a strict check would not have come to an end
        have hmem := (mem_rejected env entries entry).mpr ⟨hentry, hroot⟩
        rw [hstrict rfl] at hmem
        cases hmem

/-- Every entry is accounted for by the roots or by the warnings, but for roots that come before another
root of their name; those are in the settings only if they are equal to the last one. So nothing is
lost just in case no two entries stand for different folders under one name, and the numbers add up
just in case no two stand for roots of one name at all. -/
theorem roots_accounted (fields entries : List (String × Json)) (s : Settings) (ws : List Warning)
    (hentries : Json.getKey? fields "source_roots" = some (.obj entries))
    (h : check env strict (.obj fields) = .ok (s, ws)) :
    s.sourceRoots.Perm (Json.lasting (·.1) (rootsOf env entries)) ∧
    ws.filter Warning.ofRoot = (rejected env entries).map rootWarning ∧
    (strict = true → rejected env entries = []) ∧
    s.sourceRoots.length + (ws.filter Warning.ofRoot).length +
      (Json.overwritten (·.1) (rootsOf env entries)).length = entries.length ∧
    ((∀ entry ∈ entries, Accounted env strict s ws entry) ↔
      ∀ root ∈ rootsOf env entries, ∀ other ∈ rootsOf env entries,
        root.1 = other.1 → root = other) ∧
    (s.sourceRoots.length + (ws.filter Warning.ofRoot).length = entries.length ↔
      ((rootsOf env entries).map (·.1)).Nodup) := by
  obtain ⟨_, hws, hroots, rfl, hstrict⟩ :=
    tells_checkFields env strict fields entries hentries [] s ws h
  rw [List.filter_nil, List.nil_append] at hws
  have hperm : s.sourceRoots.Perm (Json.lasting (·.1) (rootsOf env entries)) :=
    hroots ▸ Json.putAll_nil_perm _
  have hlength : s.sourceRoots.length + (ws.filter Warning.ofRoot).length +
      (Json.overwritten (·.1) (rootsOf env entries)).length = entries.length := by
    have hsplit := (Json.lasting_append_overwritten (·.1) (rootsOf env entries)).length_eq
    have hall := length_rootsOf_add_rejected env entries
    rw [List.length_append] at hsplit
    rw [hws, List.length_map, hperm.length_eq]
    omega
  refine ⟨hperm, hws, hstrict, hlength, ?_, ?_⟩
  · rw [forall_accounted_iff env strict entries s ws hws hstrict]
    simp only [hperm.mem_iff]
    exact Json.forall_mem_lasting_iff (fun root : String × String => root.1) (rootsOf env entries)
  · rw [← Json.overwritten_eq_nil_iff, ← List.length_eq_zero_iff]
    omega

end

/-- Entries of which two stand for roots of one name, and two for none. -/
def crowded : List (String × Json) :=
  [(" a", .str "x"), ("b", .str "/y/."), ("\u2003", .str "z"), ("a\n", .str " w "), ("c", .int 5)]

theorem roots_accounted_crowded : ∃ s ws,
    check { workdir := "/W", vars := [] } false (.obj [("source_roots", .obj crowded)]) = .ok (s, ws) ∧
    s.sourceRoots.Perm [("b", "/y"), ("a", "/W/w")] ∧
    ws = [.replaced (.root "\u2003" (.str "z")), .replaced (.root "c" (.int 5))] ∧
    s.sourceRoots.length + (ws.filter Warning.ofRoot).length + 1 = crowded.length ∧
    ¬ ∀ entry ∈ crowded, Accounted { workdir := "/W", vars := [] } false s ws entry := by
  have hcheck : check { workdir := "/W", vars := [] } false
      (.obj [("source_roots", .obj crowded)]) =
      .ok ({ usual "/W" with sourceRoots := [("a", "/W/w"), ("b", "/y")] },
        [.replaced (.root "\u2003" (.str "z")), .replaced (.root "c" (.int 5))]) := by
    decide +kernel
  obtain ⟨hperm, -, -, hlength, hall, -⟩ := roots_accounted _ _ _ crowded _ _ rfl hcheck
  have hroots : rootsOf { workdir := "/W", vars := [] } crowded =
      [("a", "/W/x"), ("b", "/y"), ("a", "/W/w")] := by decide +kernel
  rw [hroots] at hperm hlength hall
  refine ⟨_, _, hcheck, hperm, rfl, hlength, fun h => ?_⟩
  exact absurd (hall.mp h ("a", "/W/x") (by decide) ("a", "/W/w") (by decide) rfl) (by decide)

/-- Two names that are one when trimmed: the first root is lost, and no check says so. -/
theorem root_lost :
    let env : Environment := { workdir := "/W", vars := [] }
    let entries := [("a", Json.str "x"), (" a", .str "y")]
    let s := { usual "/W" with sourceRoots := [("a", "/W/y")] }
    (∀ strict, check env strict (.obj [("source_roots", .obj entries)]) = .ok (s, [])) ∧
      ¬ Accounted env false s [] ("a", .str "x") ∧ s.sourceRoots.length + 0 ≠ entries.length := by
  intro env entries s
  have hcheck : ∀ strict, check env strict (.obj [("source_roots", .obj entries)]) = .ok (s, []) := by
    decide +kernel
  refine ⟨hcheck, ?_, by decide⟩
  rintro (⟨root, hroot, hmem⟩ | ⟨-, hwarned⟩)
  · have hfirst : rootOf? env ("a", .str "x") = some ("a", "/W/x") := by decide +kernel
    rw [hfirst] at hroot
    cases hroot
    exact absurd hmem (by decide)
  · cases hwarned

end Settings

end DocNavigation
