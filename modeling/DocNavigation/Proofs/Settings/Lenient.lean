import DocNavigation.Proofs.Number.Integer
import DocNavigation.Proofs.Settings.Checked
import DocNavigation.Proofs.Settings.Strict
import DocNavigation.Proofs.Text.Trim

/-!
What a lenient check cannot mend: digits that are no numeral, and paths in the home of an account
that cannot be looked up. Whatever else is wrong is replaced.
-/

namespace DocNavigation

namespace Judging

/-- The check gives a value just in case the condition holds, whatever was warned of before. -/
def Ends {α : Type} (x : Judging α) (C : Prop) : Prop :=
  ∀ before, (∃ r, x.run before = .ok r) ↔ C

/-- The check gives this value, whatever was warned of before. -/
def Yields {α : Type} (x : Judging α) (a : α) : Prop :=
  ∀ before, ∃ after, x.run before = .ok (a, after)

section
variable {α β : Type}

theorem Ends.congr (x : Judging α) (C D : Prop) (hx : x.Ends C) (h : C ↔ D) : x.Ends D :=
  fun before => (hx before).trans h

theorem Yields.pure (a : α) : Yields (Pure.pure a : Judging α) a :=
  fun before => ⟨before, rfl⟩

theorem Yields.ends (x : Judging α) (a : α) (C : Prop) (hx : x.Yields a) (h : C) : x.Ends C := by
  intro before
  obtain ⟨after, hrun⟩ := hx before
  exact iff_of_true ⟨_, hrun⟩ h

theorem Yields.bind (x : Judging α) (f : α → Judging β) (a : α) (b : β) (hx : x.Yields a)
    (hf : (f a).Yields b) : (x >>= f).Yields b := by
  intro before
  obtain ⟨between, hrun⟩ := hx before
  obtain ⟨after, hrun'⟩ := hf between
  refine ⟨after, ?_⟩
  rw [StateT.run_bind, hrun]
  exact hrun'

theorem Yields.bind_ends (x : Judging α) (f : α → Judging β) (a : α) (C : Prop) (hx : x.Yields a)
    (hf : (f a).Ends C) : (x >>= f).Ends C := by
  intro before
  obtain ⟨between, hrun⟩ := hx before
  rw [StateT.run_bind, hrun]
  exact hf between

theorem Ends.bind (x : Judging α) (f : α → Judging β) (C D : Prop) (hx : x.Ends C)
    (hf : ∀ a, (f a).Ends D) : (x >>= f).Ends (C ∧ D) := by
  intro before
  rw [StateT.run_bind]
  cases hrun : x.run before with
  | error e =>
    have hnot : ¬ C := fun hc => by
      obtain ⟨r, hr⟩ := (hx before).mpr hc
      cases hrun.symm.trans hr
    exact iff_of_false nofun fun h => hnot h.1
  | ok r =>
    have hc : C := (hx before).mp ⟨r, hrun⟩
    exact (hf r.1 r.2).trans (and_iff_right hc).symm

theorem Yields.mapM (f : α → Judging β) (g : α → β) (as : List α) (hf : ∀ a, (f a).Yields (g a)) :
    (as.mapM f).Yields (as.map g) := by
  induction as with
  | nil => exact Yields.pure []
  | cons a as ih =>
    rw [List.mapM_cons]
    exact Yields.bind _ _ _ _ (hf a) (Yields.bind _ _ _ _ ih (Yields.pure _))

theorem Ends.mapM (f : α → Judging β) (C : α → Prop) (as : List α)
    (hf : ∀ a ∈ as, (f a).Ends (C a)) : (as.mapM f).Ends (∀ a ∈ as, C a) := by
  induction as with
  | nil => exact Yields.ends _ _ _ (Yields.pure []) nofun
  | cons a as ih =>
    rw [List.forall_mem_cons] at hf
    rw [List.mapM_cons]
    refine Ends.congr _ _ _ (Ends.bind _ _ _ _ hf.1 fun b => ?_) List.forall_mem_cons.symm
    refine Ends.congr _ _ _ (Ends.bind _ _ _ True (ih hf.2) fun bs => ?_) (Iff.of_eq (and_true _))
    exact Yields.ends _ _ _ (Yields.pure _) trivial

theorem Ends.foldlM (f : β → α → Judging β) (C : α → Prop) (as : List α) (b : β)
    (hf : ∀ b a, (f b a).Ends (C a)) : (as.foldlM f b).Ends (∀ a ∈ as, C a) := by
  induction as generalizing b with
  | nil => exact Yields.ends _ _ _ (Yields.pure b) nofun
  | cons a as ih =>
    rw [List.foldlM_cons]
    exact Ends.congr _ _ _ (Ends.bind _ _ _ _ (hf b a) ih) List.forall_mem_cons.symm

end

end Judging

namespace Path

theorem hasNullAccount_of_head (p : String) (c : Char) (cs : List Char) (hp : p.toList = c :: cs)
    (hc : c ≠ '~') : hasNullAccount p = false := by
  unfold hasNullAccount
  split
  case h_1 rest hrest => exact absurd (List.cons.inj (hp.symm.trans hrest)).1 hc
  case h_2 => rfl

theorem hasNullAccount_of_isRooted (p : String) (h : isRooted p = true) :
    hasNullAccount p = false ∧ hasNullAccount (Text.trim p) = false := by
  obtain ⟨cs, hcs⟩ := (isRooted_iff p).mp h
  obtain ⟨rest, hrest⟩ := Text.head_trim p '/' cs hcs (by decide)
  exact ⟨hasNullAccount_of_head _ _ _ hcs (by decide), hasNullAccount_of_head _ _ _ hrest (by decide)⟩

theorem hasNullAccount_of_isRemote (p : String) (h : isRemote p = true) :
    hasNullAccount (Text.trim p) = false := by
  cases htrim : (Text.trim p).toList with
  | nil =>
    unfold hasNullAccount
    rw [htrim]
  | cons c cs =>
    refine hasNullAccount_of_head _ c cs htrim fun htilde => ?_
    have hlower : (Text.lowerAscii (Text.trim p)).toList =
        '~' :: cs.map fun c => Char.ofNat (Text.asciiLower c.toNat) := by
      rw [Text.lowerAscii, htrim, htilde, String.toList_ofList, List.map_cons]
      rfl
    rw [isRemote] at h
    simp only [Text.startsWith, hlower] at h
    cases h

/-- The fallback only matters for a blank text, and has no part in what is wrong with another one. -/
theorem hasNullAccount_given (text fallback : String) (h : hasNullAccount fallback = false) :
    hasNullAccount (given text fallback) = false ↔ hasNullAccount (Text.trim text) = false := by
  unfold given
  by_cases hblank : Text.trim text = ""
  · rw [if_pos hblank, hblank]
    exact iff_of_true h (by decide)
  · rw [if_neg hblank]

end Path

namespace Settings

open Judging

theorem yields_fault {α : Type} (f : Finding) (replacement : α) :
    (fault false f replacement).Yields replacement :=
  fun before => ⟨before ++ [.replaced f], rfl⟩

/-- The text that a lenient check makes of a value. -/
def textOf (fallback : String) : Option Json → String
  | some (.str s) => Text.trim s
  | _ => fallback

theorem textOf_iff (P : String → Prop) (fallback : String) (v : Option Json) (h : P fallback) :
    P (textOf fallback v) ↔ ∀ s, v = some (.str s) → P (Text.trim s) := by
  unfold textOf
  split
  case h_1 s => simp
  case h_2 hstr => exact iff_of_true h fun s hs => absurd hs (hstr s)

theorem yields_checkText (field fallback : String) (v : Option Json) :
    (checkText false field fallback v).Yields (textOf fallback v) := by
  unfold checkText
  split
  · exact Yields.pure _
  · exact Yields.pure _
  · exact Yields.pure _
  case h_4 v hnull hstr =>
    have hfallback : textOf fallback (some v) = fallback := by
      unfold textOf
      split
      case h_1 s heq => exact absurd (Option.some.inj heq) (hstr s)
      case h_2 => rfl
    rw [hfallback]
    exact yields_fault _ _

theorem ends_checkSwitch (field : String) (fallback : Bool) (v : Option Json) :
    (checkSwitch false field fallback v).Ends True := by
  rcases checkSwitch_cases field fallback v with ⟨b, hb⟩ | ⟨w, b, -, hlenient⟩
  · rw [hb]
    exact Yields.ends _ _ _ (Yields.pure b) trivial
  · rw [hlenient]
    exact Yields.ends _ b _ (fun before => ⟨before ++ [w], rfl⟩) trivial

/-- The text is no row of digits, or one that can be read: all of them are decimal, and they are not
too many. -/
def CountReadable (s : String) : Prop :=
  isDigits (Text.trim s) = true →
    (∀ c ∈ (Text.trim s).toList, Text.isDecimal c = true) ∧
      (Text.trim s).length ≤ Number.maxDigits

theorem ends_checkCount (field : String) (fallback : Nat) (v : Option Json) :
    (checkCount false field fallback v).Ends (∀ s, v = some (.str s) → CountReadable s) := by
  unfold checkCount
  split
  · exact Yields.ends _ _ _ (Yields.pure _) nofun
  · exact Yields.ends _ _ _ (Yields.pure _) nofun
  · exact Yields.ends _ _ _ (Yields.pure _) nofun
  case h_4 s =>
    simp only [Option.some.injEq, Json.str.injEq, forall_eq']
    cases hdigits : isDigits (Text.trim s) with
    | false =>
      have hreadable : CountReadable s := fun htrue => absurd (hdigits.symm.trans htrue) (by decide)
      simp only [Bool.and_false, Bool.false_eq_true, if_false]
      exact Yields.ends _ _ _ (yields_fault _ _) hreadable
    | true =>
      have hall := hdigits
      simp only [isDigits, Bool.and_eq_true, decide_eq_true_eq, List.all_eq_true] at hall
      have hread := Number.readInteger_digits _ (Text.trim_trim s) hall.1 hall.2
      simp only [Bool.not_false, Bool.and_self, if_true]
      refine Yields.bind_ends _ _ () _ (fun before => ⟨_, rfl⟩) fun before => ?_
      rw [CountReadable, forall_prop_of_true hdigits, ← hread]
      cases Number.readInteger (Text.trim s) with
      | ok n => exact iff_of_true ⟨_, rfl⟩ ⟨n, rfl⟩
      | error e => exact iff_of_false nofun nofun
  case h_5 v hnull hint hstr =>
    exact Yields.ends _ _ _ (yields_fault _ _) fun s hs => absurd (Option.some.inj hs) (hstr s)

/-- The items that a lenient check makes of a value. -/
def itemOf : Json → List String
  | .str s => if Text.trim s = "" then [] else [Text.trim s]
  | _ => []

def textsOf (fallback : List String) : Option Json → List String
  | some (.str s) => Text.commaSeparated s
  | some (.arr items) => (items.map itemOf).flatten
  | _ => fallback

/-- The text is one of those listed, as an item or between commas. -/
inductive Listed (v : Option Json) (text : String) : Prop
  | piece (s : String) (hv : v = some (.str s)) (h : text ∈ Text.split ',' s)
  | item (items : List Json) (hv : v = some (.arr items)) (h : .str text ∈ items)

theorem mem_itemOf (item : Json) (a : String) :
    a ∈ itemOf item ↔ a ≠ "" ∧ ∃ text, item = .str text ∧ Text.trim text = a := by
  cases item with
  | str s =>
    rw [itemOf]
    by_cases hblank : Text.trim s = ""
    · rw [if_pos hblank]
      refine iff_of_false List.not_mem_nil ?_
      rintro ⟨ha, _, ⟨⟩, rfl⟩
      exact ha hblank
    · rw [if_neg hblank, List.mem_singleton]
      constructor
      · rintro rfl
        exact ⟨hblank, s, rfl, rfl⟩
      · rintro ⟨-, _, ⟨⟩, rfl⟩
        rfl
  | _ => simp [itemOf]

theorem mem_textsOf (v : Option Json) (a : String) :
    a ∈ textsOf [] v ↔ a ≠ "" ∧ ∃ text, Listed v text ∧ Text.trim text = a := by
  unfold textsOf
  split
  case h_1 s =>
    rw [Text.mem_commaSeparated]
    refine and_congr_right fun _ => exists_congr fun text => and_congr_left fun _ => ?_
    constructor
    · exact .piece s rfl
    · rintro (⟨_, ⟨⟩, h⟩ | ⟨_, ⟨⟩, -⟩)
      exact h
  case h_2 items =>
    simp only [List.mem_flatten, List.mem_map, exists_exists_and_eq_and, mem_itemOf]
    constructor
    · rintro ⟨item, hitem, ha, text, rfl, rfl⟩
      exact ⟨ha, text, .item items rfl hitem, rfl⟩
    · rintro ⟨ha, text, ⟨_, ⟨⟩, -⟩ | ⟨_, ⟨⟩, h⟩, rfl⟩
      exact ⟨_, h, ha, text, rfl, rfl⟩
  case h_3 hstr harr =>
    refine iff_of_false List.not_mem_nil ?_
    rintro ⟨-, text, ⟨s, hs, -⟩ | ⟨items, hitems, -⟩, -⟩
    · exact hstr s hs
    · exact harr items hitems

theorem yields_checkTexts (field : String) (fallback : List String) (v : Option Json) :
    (checkTexts false field fallback v).Yields (textsOf fallback v) := by
  have hitem : ∀ item, (checkItem false field item).Yields (itemOf item) := by
    intro item
    cases item with
    | str s => exact Yields.pure _
    | _ => exact yields_fault _ _
  unfold checkTexts
  split
  · exact Yields.pure _
  · exact Yields.pure _
  · exact Yields.pure _
  · exact Yields.bind _ _ _ _ (Yields.mapM _ _ _ hitem) (Yields.pure _)
  case h_5 v hnull hstr harr =>
    have hfallback : textsOf fallback (some v) = fallback := by
      unfold textsOf
      split
      case h_1 s heq => exact absurd (Option.some.inj heq) (hstr s)
      case h_2 items heq => exact absurd (Option.some.inj heq) (harr items)
      case h_3 => rfl
    rw [hfallback]
    exact yields_fault _ _

theorem ends_checkPriority (word : String) : (checkPriority false word).Ends True := by
  unfold checkPriority
  split
  · exact Yields.ends _ _ _ (Yields.pure _) trivial
  · exact Yields.ends _ _ _ (yields_fault _ _) trivial

/-- The texts that a configuration gives for paths. -/
inductive PathText (config : Json) (text : String) : Prop
  | output (h : config.get? "output_path" = some (.str text))
  | scripts (h : config.get? "legacy_export_dir" = some (.str text))
  | source (h : Listed (config.get? "merge_with") text)
  | root (roots : List (String × Json)) (name : String)
    (hroots : config.get? "source_roots" = some (.obj roots)) (h : (name, .str text) ∈ roots)
    (hname : Text.trim name ≠ "")

/-- The same, field by field; blank texts in the list of sources count for nothing. -/
theorem forall_pathText_iff (config : Json) (P : String → Prop) (hblank : P "") :
    (∀ text, PathText config text → P (Text.trim text)) ↔
      (∀ roots name text, config.get? "source_roots" = some (.obj roots) →
        (name, .str text) ∈ roots → Text.trim name ≠ "" → P (Text.trim text)) ∧
      (∀ text, config.get? "output_path" = some (.str text) → P (Text.trim text)) ∧
      (∀ text, config.get? "legacy_export_dir" = some (.str text) → P (Text.trim text)) ∧
      ∀ a ∈ textsOf [] (config.get? "merge_with"), P a := by
  constructor
  · intro h
    refine ⟨fun roots name text hfield hmem hname => h text (.root roots name hfield hmem hname),
      fun text htext => h text (.output htext), fun text htext => h text (.scripts htext), ?_⟩
    intro a ha
    obtain ⟨-, text, htext, rfl⟩ := (mem_textsOf _ _).mp ha
    exact h text (.source htext)
  · rintro ⟨hroots, houtput, hscripts, hsources⟩ text htext
    cases htext with
    | output h => exact houtput text h
    | scripts h => exact hscripts text h
    | source h =>
      by_cases hnone : Text.trim text = ""
      · exact hnone ▸ hblank
      · exact hsources _ ((mem_textsOf _ _).mpr ⟨hnone, text, h, rfl⟩)
    | root roots name hfield h hname => exact hroots roots name text hfield h hname

section
variable (env : Environment)

theorem ends_located (text fallback : String) :
    (located env text fallback).Ends (Path.hasNullAccount (Path.given text fallback) = false) := by
  intro before
  unfold located
  cases hpath : Path.resolve env text fallback with
  | ok path => exact iff_of_true ⟨_, rfl⟩ ((Path.resolve_eq_ok_iff ..).mp hpath).1
  | error e =>
    refine iff_of_false nofun fun hgiven => ?_
    cases hpath.symm.trans ((Path.resolve_eq_ok_iff env text fallback _).mpr ⟨hgiven, rfl⟩)

theorem ends_locatedFolder (text : String) :
    (locatedFolder env text).Ends (Path.hasNullAccount (Text.trim text) = false) := by
  unfold locatedFolder
  split
  case isTrue hnone =>
    rw [hnone]
    exact Yields.ends _ _ _ (Yields.pure _) (by decide)
  case isFalse =>
    exact Ends.congr _ _ _ (ends_located env text "") (Path.hasNullAccount_given text "" (by decide))

/-- A web address is no path, and begins with no tilde either. -/
theorem ends_locatedSource (source : String) (htrim : Text.trim source = source) :
    (locatedSource env source).Ends (Path.hasNullAccount source = false) := by
  unfold locatedSource
  split
  case isTrue hremote =>
    have hremote' := Path.hasNullAccount_of_isRemote source hremote
    rw [htrim] at hremote'
    exact Yields.ends _ _ _ (Yields.pure _) hremote'
  case isFalse =>
    have hgiven : Path.given source source = source := by
      rw [Path.given, htrim, ite_self]
    have hends := ends_located env source source
    rwa [hgiven] at hends

section
variable (hwork : Path.isRooted env.workdir = true)
include hwork

theorem ends_checkRoot (roots : List (String × String)) (entry : String × Json) :
    (checkRoot env false roots entry).Ends (∀ text, entry.2 = .str text → Text.trim entry.1 ≠ "" →
      Path.hasNullAccount (Text.trim text) = false) := by
  unfold checkRoot
  simp only
  split
  case h_1 text htext =>
    simp only [htext, Json.str.injEq, forall_eq']
    split
    case isTrue hblank =>
      refine Yields.ends _ _ _ (yields_fault _ _) fun hname => ?_
      rw [hblank.resolve_left hname]
      decide
    case isFalse hfull =>
      have hnone := (Path.hasNullAccount_of_isRooted _ hwork).1
      refine Ends.congr _ _ _ (Ends.bind _ _ _ True (ends_located env text env.workdir) fun _ =>
        Yields.ends _ _ _ (Yields.pure _) trivial) ?_
      rw [and_true, Path.hasNullAccount_given _ _ hnone, forall_prop_of_true (not_or.mp hfull).1]
  case h_2 hstr =>
    exact Yields.ends _ _ _ (yields_fault _ _) fun text htext => absurd htext (hstr text)

theorem ends_checkRoots (v : Option Json) :
    (checkRoots env false v).Ends (∀ roots name text, v = some (.obj roots) →
      (name, .str text) ∈ roots → Text.trim name ≠ "" →
        Path.hasNullAccount (Text.trim text) = false) := by
  unfold checkRoots
  split
  · exact Yields.ends _ _ _ (Yields.pure _) nofun
  · exact Yields.ends _ _ _ (Yields.pure _) nofun
  case h_3 roots =>
    refine Ends.congr _ _ _ (Ends.foldlM _ _ roots [] (ends_checkRoot env hwork)) ?_
    constructor
    · rintro h _ name text ⟨⟩ hmem hname
      exact h _ hmem text rfl hname
    · rintro h ⟨name, _⟩ hmem text rfl hname
      exact h roots name text rfl hmem hname
  case h_4 v hnull hobj =>
    exact Yields.ends _ _ _ (yields_fault _ _) fun roots _ _ hroots =>
      absurd (Option.some.inj hroots) (hobj roots)

theorem ends_checkFields (fields : List (String × Json)) :
    (checkFields env false fields).Ends
      ((∀ s, Json.getKey? fields "max_workers" = some (.str s) → CountReadable s) ∧
        ∀ text, PathText (.obj fields) text → Path.hasNullAccount (Text.trim text) = false) := by
  -- the conditions in the order in which they are met
  have hraw : (checkFields env false fields).Ends (True ∧
      (∀ s, Json.getKey? fields "max_workers" = some (.str s) → CountReadable s) ∧
      (∀ roots name text, Json.getKey? fields "source_roots" = some (.obj roots) →
        (name, .str text) ∈ roots → Text.trim name ≠ "" →
          Path.hasNullAccount (Text.trim text) = false) ∧
      Path.hasNullAccount (Path.given (textOf (usual env.workdir).outputPath
        (Json.getKey? fields "output_path")) (usual env.workdir).outputPath) = false ∧
      Path.hasNullAccount (Text.trim (textOf "" (Json.getKey? fields "legacy_export_dir"))) = false ∧
      (∀ a ∈ textsOf [] (Json.getKey? fields "merge_with"), Path.hasNullAccount a = false) ∧
      True ∧ True) := by
    unfold checkFields
    iterate 5 refine Yields.bind_ends _ _ _ _ (yields_checkText _ _ _) ?_
    refine Ends.bind _ _ _ _ (ends_checkSwitch _ _ _) fun respect => ?_
    refine Ends.bind _ _ _ _ (ends_checkCount _ _ _) fun workers => ?_
    iterate 4 refine Yields.bind_ends _ _ _ _ (yields_checkTexts _ _ _) ?_
    refine Ends.bind _ _ _ _ (ends_checkRoots env hwork _) fun roots => ?_
    refine Ends.bind _ _ _ _ (ends_located env _ _) fun output => ?_
    refine Ends.bind _ _ _ _ (ends_locatedFolder env _) fun scripts => ?_
    refine Ends.bind _ _ _ _ (Ends.mapM _ _ _ fun a ha => ?_) fun mergeWith => ?_
    · obtain ⟨-, text, -, rfl⟩ := (mem_textsOf _ _).mp ha
      exact ends_locatedSource env _ (Text.trim_trim text)
    · exact Ends.bind _ _ _ _ (ends_checkPriority _) fun priority =>
        Yields.ends _ _ _ (Yields.pure _) trivial
  have husual := Path.hasNullAccount_of_isRooted _ (isRooted_usual env.workdir hwork)
  refine Ends.congr _ _ _ hraw ?_
  rw [forall_pathText_iff _ (fun text => Path.hasNullAccount text = false) (by decide),
    Path.hasNullAccount_given _ _ husual.1,
    textOf_iff (fun text => Path.hasNullAccount (Text.trim text) = false) _ _ husual.2,
    textOf_iff (fun text => Path.hasNullAccount (Text.trim text) = false) _ _ (by decide)]
  simp only [Text.trim_trim, true_and, and_true]
  exact Iff.rfl

/-- A lenient check gives settings for every configuration, but for digits that are no numeral and for
paths in the home of an account that cannot be looked up. -/
theorem lenient_succeeds_iff (config : Json) :
    (∃ s ws, check env false config = .ok (s, ws)) ↔
      (∀ s, config.get? "max_workers" = some (.str s) → CountReadable s) ∧
        ∀ text, PathText config text → Path.hasNullAccount (Text.trim text) = false := by
  have hother : (∀ key, config.get? key = none) →
      (∀ s, config.get? "max_workers" = some (.str s) → CountReadable s) ∧
        ∀ text, PathText config text → Path.hasNullAccount (Text.trim text) = false := by
    intro hnone
    refine ⟨fun s hs => ?_, fun text htext => ?_⟩
    · rw [hnone] at hs
      cases hs
    · rcases htext with h | h | (⟨_, h, -⟩ | ⟨_, h, -⟩) | ⟨_, _, h, -, -⟩
      all_goals
        rw [hnone] at h
        cases h
  cases config with
  | obj fields => exact Prod.exists.symm.trans (ends_checkFields env hwork fields [])
  | _ => exact iff_of_true ⟨_, _, rfl⟩ (hother fun _ => rfl)

end

end

/-- Whatever can be replaced is no hindrance, and a path that cannot be looked up is one. -/
theorem lenient_succeeds_iff_mended :
    let env : Environment := { workdir := "/W", vars := [] }
    Path.isRooted env.workdir = true ∧
      (∃ s ws, check env false (.obj [("max_workers", .str " ٧ "), ("merge_with", .str "~,$HOME"),
        ("respect_gitignore", .str "maybe"), ("log_level", .int 7)]) = .ok (s, ws)) ∧
      ¬ ∃ s ws, check env false (.obj [("output_path", .str " ~\x00/a ")]) = .ok (s, ws) := by
  intro env
  have hwork : Path.isRooted env.workdir = true := by decide
  refine ⟨hwork, (lenient_succeeds_iff env hwork _).mpr ⟨fun s hs => ?_, fun text htext => ?_⟩,
    fun h => ?_⟩
  · cases hs
    have hall : (Text.trim " ٧ ").toList.all Text.isDecimal = true := by decide +kernel
    exact fun _ => ⟨List.all_eq_true.mp hall, by decide +kernel⟩
  · rcases htext with h | h | (⟨_, ⟨⟩, h⟩ | ⟨_, h, -⟩) | ⟨_, _, h, -, -⟩
    · cases h
    · cases h
    · have hall : ∀ piece ∈ Text.split ',' "~,$HOME",
          Path.hasNullAccount (Text.trim piece) = false := by
        decide +kernel
      exact hall text h
    · cases h
    · cases h
  · have hnull := ((lenient_succeeds_iff env hwork _).mp h).2 " ~\x00/a " (.output rfl)
    exact absurd hnull (by decide +kernel)

/-- A raised two is a digit but no numeral. -/
theorem lenient_fails_raised :
    check { workdir := "/W", vars := [] } false (.obj [("max_workers", .str "²")]) =
      .error (.integer .notANumber "²") := by
  decide +kernel

end Settings

end DocNavigation
