import DocNavigation.Proofs.Result
import DocNavigation.Proofs.Settings.Lenient

/-!
Fields are checked apart from each other. Where two files agree on a field, lenient checks of them
give the same value for it, and a file each of whose fields is taken from one that passes does pass.
-/

namespace DocNavigation

namespace Json

/-- Lists with the same keys, and the same values under those that count. -/
theorem getKey?_congr {α : Type} (P : String → Prop) (fields fields' : List (String × α))
    (h : List.Forall₂ (fun f f' => f.1 = f'.1 ∧ (P f.1 → f.2 = f'.2)) fields fields') (key : String)
    (hkey : P key) : getKey? fields key = getKey? fields' key := by
  induction h with
  | nil => rfl
  | @cons f f' fields fields' hf hrest ih =>
    rw [getKey?_cons, getKey?_cons, ih, ← hf.1]
    by_cases hfound : f.1 = key
    · rw [if_pos hfound, if_pos hfound, hf.2 (hfound ▸ hkey)]
    · rw [if_neg hfound, if_neg hfound]

end Json

namespace Judging

section
variable {α β γ δ : Type}

/-- Where both checks go on, their values are related. -/
def Relates (x : Judging α) (y : Judging β) (R : α → β → Prop) : Prop :=
  ∀ before before' a b after after',
    x.run before = .ok (a, after) → y.run before' = .ok (b, after') → R a b

theorem Relates.pure (a : α) (b : β) (R : α → β → Prop) (h : R a b) :
    Relates (Pure.pure a : Judging α) (Pure.pure b : Judging β) R := by
  intro before before' a' b' after after' hx hy
  cases hx
  cases hy
  exact h

theorem Relates.bind (x : Judging α) (y : Judging β) (f : α → Judging γ) (g : β → Judging δ)
    (R : α → β → Prop) (S : γ → δ → Prop) (hxy : Relates x y R)
    (hfg : ∀ a b, R a b → Relates (f a) (g b) S) : Relates (x >>= f) (y >>= g) S := by
  intro before before' c d after after' hx hy
  rw [StateT.run_bind] at hx hy
  obtain ⟨⟨a, between⟩, hfirst, hx⟩ := (Result.bind_eq_ok_iff _ _ _).mp hx
  obtain ⟨⟨b, between'⟩, hfirst', hy⟩ := (Result.bind_eq_ok_iff _ _ _).mp hy
  exact hfg a b (hxy _ _ _ _ _ _ hfirst hfirst') _ _ _ _ _ _ hx hy

/-- What was warned of before does not matter for the value. -/
theorem Relates.of_uniform (x y : Bool → Judging α) (P : Prop) (hx : Uniform x) (h : P → x = y) :
    Relates (x false) (y false) fun a b => P → a = b := by
  intro before before' a b after after' hrun hrun' hP
  obtain ⟨v, -, hv⟩ := hx
  rw [← h hP, hv, Verdict.report_lenient] at hrun'
  rw [hv, Verdict.report_lenient] at hrun
  obtain ⟨c, hc, heq⟩ := (Result.map_eq_ok_iff _ _ _).mp hrun
  obtain ⟨c', hc', heq'⟩ := (Result.map_eq_ok_iff _ _ _).mp hrun'
  cases hc.symm.trans hc'
  cases heq
  cases heq'
  rfl

end

end Judging

namespace Settings

open Judging

section
variable (env : Environment) (fields fields' : List (String × Json))

/-- Both files have the same value under a key, or neither has one. -/
def Same (key : String) : Prop :=
  Json.getKey? fields key = Json.getKey? fields' key

/-- Fields that two files agree on have the same values in the settings. -/
def Agree (s s' : Settings) : Prop :=
  ∀ key, Same fields fields' key → Json.getKey? s.knownFields key = Json.getKey? s'.knownFields key

theorem relates_field {α : Type} (x : Bool → Option Json → Judging α)
    (hx : ∀ v, Uniform fun strict => x strict v) (key : String) :
    Relates (x false (Json.getKey? fields key)) (x false (Json.getKey? fields' key))
      fun a b => Same fields fields' key → a = b :=
  Relates.of_uniform (x · _) (x · _) _ (hx _) fun h => by rw [h]

theorem relates_checkFields :
    Relates (checkFields env false fields) (checkFields env false fields') (Agree fields fields') := by
  have htext : ∀ field fallback key, Relates (checkText false field fallback (Json.getKey? fields key))
      (checkText false field fallback (Json.getKey? fields' key))
      fun a b => Same fields fields' key → a = b := fun field fallback =>
    relates_field _ _ (fun strict => checkText strict field fallback) (uniform_checkText field fallback)
  have htexts : ∀ field fallback key,
      Relates (checkTexts false field fallback (Json.getKey? fields key))
        (checkTexts false field fallback (Json.getKey? fields' key))
        fun a b => Same fields fields' key → a = b := fun field fallback =>
    relates_field _ _ (fun strict => checkTexts strict field fallback)
      (uniform_checkTexts field fallback)
  have hswitch := relates_field fields fields' (fun strict => checkSwitch strict "respect_gitignore" true)
    (uniform_checkSwitch _ _)
  have hcount := relates_field fields fields' (fun strict => checkCount strict "max_workers" 0)
    (uniform_checkCount _ _)
  have hroots := relates_field fields fields' (checkRoots env) (uniform_checkRoots env)
  unfold checkFields
  refine Relates.bind _ _ _ _ _ _ (htext _ _ _) fun output output' houtput => ?_
  refine Relates.bind _ _ _ _ _ _ (htext _ _ _) fun scripts scripts' hscripts => ?_
  refine Relates.bind _ _ _ _ _ _ (htext _ _ _) fun _ _ hlogLevel => ?_
  refine Relates.bind _ _ _ _ _ _ (htext _ _ _) fun _ _ hlogFile => ?_
  refine Relates.bind _ _ _ _ _ _ (htext _ _ _) fun word word' hword => ?_
  refine Relates.bind _ _ _ _ _ _ (hswitch _) fun _ _ hrespect => ?_
  refine Relates.bind _ _ _ _ _ _ (hcount _) fun _ _ hworkers => ?_
  refine Relates.bind _ _ _ _ _ _ (htexts _ _ _) fun _ _ hextensions => ?_
  refine Relates.bind _ _ _ _ _ _ (htexts _ _ _) fun _ _ hincluded => ?_
  refine Relates.bind _ _ _ _ _ _ (htexts _ _ _) fun _ _ hexcluded => ?_
  refine Relates.bind _ _ _ _ _ _ (htexts _ _ _) fun sources sources' hsources => ?_
  refine Relates.bind _ _ _ _ _ _ (hroots _) fun _ _ hroots => ?_
  -- paths and the priority are made of texts that are known to be the same
  refine Relates.bind _ _ _ _ _ _ (.of_uniform (fun _ => located env output _)
    (fun _ => located env output' _) (Same fields fields' "output_path") (uniform_located env _ _)
    fun h => by rw [houtput h]) fun _ _ houtput => ?_
  refine Relates.bind _ _ _ _ _ _ (.of_uniform (fun _ => locatedFolder env scripts)
    (fun _ => locatedFolder env scripts') (Same fields fields' "legacy_export_dir")
    (uniform_locatedFolder env _) fun h => by rw [hscripts h]) fun _ _ hscripts => ?_
  refine Relates.bind _ _ _ _ _ _ (.of_uniform (fun _ => sources.mapM (locatedSource env))
    (fun _ => sources'.mapM (locatedSource env)) (Same fields fields' "merge_with")
    (Uniform.mapM _ _ (uniform_locatedSource env)) fun h => by rw [hsources h]) fun _ _ hsources => ?_
  refine Relates.bind _ _ _ _ _ _ (.of_uniform (fun strict => checkPriority strict word)
    (fun strict => checkPriority strict word') (Same fields fields' "merge_priority")
    (uniform_checkPriority _) fun h => by rw [hword h]) fun _ _ hpriority => ?_
  refine Relates.pure _ _ _ (Json.getKey?_congr (Same fields fields') _ _ ?_)
  refine .cons ⟨rfl, fun h => by rw [hroots h]⟩ ?_
  refine .cons ⟨rfl, fun h => by rw [houtput h]⟩ ?_
  refine .cons ⟨rfl, fun h => by rw [hscripts h]⟩ ?_
  refine .cons ⟨rfl, fun h => by rw [hsources h]⟩ ?_
  refine .cons ⟨rfl, fun h => by rw [hpriority h]⟩ ?_
  refine .cons ⟨rfl, fun h => by rw [hextensions h]⟩ ?_
  refine .cons ⟨rfl, fun h => by rw [hincluded h]⟩ ?_
  refine .cons ⟨rfl, fun h => by rw [hexcluded h]⟩ ?_
  refine .cons ⟨rfl, fun h => by rw [hrespect h]⟩ ?_
  refine .cons ⟨rfl, fun h => by rw [hworkers h]⟩ ?_
  refine .cons ⟨rfl, fun h => by rw [hlogLevel h]⟩ ?_
  exact .cons ⟨rfl, fun h => by rw [hlogFile h]⟩ .nil

/-- What else is in the files does not matter for a field, nor whether it is all right. -/
theorem check_agrees (s s' : Settings) (ws ws' : List Warning)
    (h : check env false (.obj fields) = .ok (s, ws))
    (h' : check env false (.obj fields') = .ok (s', ws')) : Agree fields fields' s s' :=
  relates_checkFields env fields fields' [] [] s s' ws ws' h h'

end

/-- A file that takes each field from one of two that pass does pass. -/
theorem check_composed (env : Environment) (hwork : Path.isRooted env.workdir = true)
    (fields left right : List (String × Json))
    (hfields : ∀ key, Same fields left key ∨ Same fields right key)
    (hleft : ∃ s ws, check env false (.obj left) = .ok (s, ws))
    (hright : ∃ s ws, check env false (.obj right) = .ok (s, ws)) :
    ∃ s ws, check env false (.obj fields) = .ok (s, ws) := by
  have hpasses := fun fields => Prod.exists.symm.trans (ends_checkFields env hwork fields [])
  obtain ⟨hleft, hleftPaths⟩ := (hpasses left).mp hleft
  obtain ⟨hright, hrightPaths⟩ := (hpasses right).mp hright
  -- each condition is about the value under one key
  have hkey : ∀ key v, Json.getKey? fields key = some v →
      Json.getKey? left key = some v ∨ Json.getKey? right key = some v := fun key v hv =>
    (hfields key).imp (fun h => h.symm.trans hv) fun h => h.symm.trans hv
  refine (hpasses fields).mpr ⟨fun s hs => ?_, fun text htext => ?_⟩
  · exact (hkey _ _ hs).elim (hleft s) (hright s)
  · have hfrom : PathText (.obj left) text ∨ PathText (.obj right) text := by
      cases htext with
      | output h => exact (hkey _ _ h).imp .output .output
      | scripts h => exact (hkey _ _ h).imp .scripts .scripts
      | source h =>
        cases h with
        | piece s hv hmem =>
          exact (hkey _ _ hv).imp (fun h => .source (.piece s h hmem)) fun h => .source (.piece s h hmem)
        | item items hv hmem =>
          exact (hkey _ _ hv).imp (fun h => .source (.item items h hmem))
            fun h => .source (.item items h hmem)
      | root roots name hroots hmem hname =>
        exact (hkey _ _ hroots).imp (fun h => .root roots name h hmem hname)
          fun h => .root roots name h hmem hname
    exact hfrom.elim (hleftPaths text) (hrightPaths text)

end Settings

end DocNavigation
