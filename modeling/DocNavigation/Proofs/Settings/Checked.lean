import DocNavigation.Proofs.Json.Keys
import DocNavigation.Proofs.Path.Normal
import DocNavigation.Proofs.Text.Trim
import DocNavigation.Settings.Check

/-!
What settings have in common once they were checked, leniently or not, whatever was wrong with them.
-/

namespace DocNavigation

/-- Whatever a check that goes on gives has the property. -/
def Judging.Ensures {α : Type} (x : Judging α) (P : α → Prop) : Prop :=
  ∀ before a after, x.run before = .ok (a, after) → P a

section
variable {α β : Type}

theorem Judging.Ensures.pure (a : α) (P : α → Prop) (h : P a) :
    Judging.Ensures (Pure.pure a : Judging α) P := by
  intro before b after hrun
  cases hrun
  exact h

theorem Judging.Ensures.bind (x : Judging α) (f : α → Judging β) (P : α → Prop) (Q : β → Prop)
    (hx : x.Ensures P) (hf : ∀ a, P a → (f a).Ensures Q) : (x >>= f).Ensures Q := by
  intro before b after hrun
  rw [StateT.run_bind] at hrun
  cases ha : x.run before with
  | error e =>
    rw [ha] at hrun
    cases hrun
  | ok r =>
    rw [ha] at hrun
    exact hf r.1 (hx before r.1 r.2 ha) r.2 b after hrun

/-- A part that nothing need be known of. -/
theorem Judging.Ensures.after (x : Judging α) (f : α → Judging β) (Q : β → Prop)
    (hf : ∀ a, (f a).Ensures Q) : (x >>= f).Ensures Q :=
  Judging.Ensures.bind x f (fun _ => True) Q (fun _ _ _ _ => trivial) fun a _ => hf a

theorem Judging.Ensures.foldlM (f : β → α → Judging β) (P : β → Prop) (as : List α) (b : β)
    (hb : P b) (hf : ∀ b a, P b → (f b a).Ensures P) : (as.foldlM f b).Ensures P := by
  induction as generalizing b with
  | nil => exact Judging.Ensures.pure b P hb
  | cons a as ih =>
    rw [List.foldlM_cons]
    exact Judging.Ensures.bind _ _ P P (hf b a hb) fun c hc => ih c hc

theorem Judging.Ensures.mono (x : Judging α) (P Q : α → Prop) (hx : x.Ensures P)
    (h : ∀ a, P a → Q a) : x.Ensures Q :=
  fun before a after hrun => h a (hx before a after hrun)

theorem Judging.Ensures.mapM (f : α → Judging β) (P : β → Prop) (as : List α)
    (hf : ∀ a ∈ as, (f a).Ensures P) : (as.mapM f).Ensures fun bs => ∀ b ∈ bs, P b := by
  induction as with
  | nil => exact Judging.Ensures.pure [] _ nofun
  | cons a as ih =>
    rw [List.forall_mem_cons] at hf
    rw [List.mapM_cons]
    refine Judging.Ensures.bind _ _ _ _ hf.1 fun b hb => ?_
    refine Judging.Ensures.bind _ _ _ _ (ih hf.2) fun bs hbs => ?_
    exact Judging.Ensures.pure _ _ (List.forall_mem_cons.mpr ⟨hb, hbs⟩)

end

namespace Settings

/-- The usual output is a file in the working folder. -/
theorem isRooted_usual (workdir : String) (h : Path.isRooted workdir = true) :
    Path.isRooted (usual workdir).outputPath = true := by
  have hfrom := Path.isRooted_from workdir artifactName h
  rwa [if_neg (by decide)] at hfrom

/-- Faults are replaced, if they do not stop the check. -/
theorem ensures_fault {α : Type} (strict : Bool) (f : Finding) (replacement : α) (P : α → Prop)
    (h : P replacement) : (fault strict f replacement).Ensures P := by
  cases strict with
  | true =>
    intro before a after hrun
    cases hrun
  | false => exact Judging.Ensures.after _ _ _ fun _ => Judging.Ensures.pure _ _ h

section
variable (env : Environment) (strict : Bool)

theorem ensures_located (text fallback : String) :
    (located env text fallback).Ensures fun path => ∃ p, path = Path.absolute env.workdir p := by
  unfold located
  split
  case h_1 path hpath =>
    obtain ⟨-, rfl⟩ := (Path.resolve_eq_ok_iff env text fallback path).mp hpath
    exact Judging.Ensures.pure _ _ ⟨_, rfl⟩
  case h_2 => exact nofun

/-- A name with nothing to trim, and the folder that it stands for. -/
structure IsRoot (root : String × String) : Prop where
  full : root.1 ≠ ""
  trimmed : Text.trim root.1 = root.1
  folder : ∃ path, root.2 = Path.absolute env.workdir path

/-- No name has two roots. -/
structure AreRoots (roots : List (String × String)) : Prop where
  names : (roots.map (·.1)).Nodup
  each : ∀ root ∈ roots, IsRoot env root

theorem ensures_checkRoots (v : Option Json) :
    (checkRoots env strict v).Ensures (AreRoots env) := by
  have hnone : AreRoots env [] := ⟨List.nodup_nil, nofun⟩
  have hone : ∀ roots entry, AreRoots env roots →
      (checkRoot env strict roots entry).Ensures (AreRoots env) := by
    intro roots entry hroots
    unfold checkRoot
    simp only
    split
    · split
      case isTrue => exact ensures_fault _ _ _ _ hroots
      case isFalse hfull =>
        refine Judging.Ensures.bind _ _ _ _ (ensures_located env _ _) fun folder hfolder => ?_
        refine Judging.Ensures.pure _ _ ⟨Json.put_nodup _ _ _ hroots.names, fun root hroot => ?_⟩
        rcases Json.mem_put _ _ _ _ hroot with hroot | rfl
        · exact hroots.each root hroot
        · exact ⟨(not_or.mp hfull).1, Text.trim_trim _, hfolder⟩
    · exact ensures_fault _ _ _ _ hroots
  unfold checkRoots
  split
  · exact Judging.Ensures.pure _ _ hnone
  · exact Judging.Ensures.pure _ _ hnone
  · exact Judging.Ensures.foldlM _ _ _ _ hnone hone
  · exact ensures_fault _ _ _ _ hnone

/-- What a check sees to: no name has two roots, and where artifacts are to be merged, the output
path is absolute and in its normal form. -/
structure Checked (s : Settings) : Prop where
  roots : (s.sourceRoots.map (·.1)).Nodup
  output : s.mergeWith ≠ [] → ∃ path, s.outputPath = Path.absolute env.workdir path

theorem ensures_checkFields (fields : List (String × Json)) :
    (checkFields env strict fields).Ensures (Checked env) := by
  unfold checkFields
  -- the roots and the output are the fields of which something is to be known
  iterate 11 refine Judging.Ensures.after _ _ _ fun _ => ?_
  refine Judging.Ensures.bind _ _ _ _ (ensures_checkRoots env strict _) fun roots hroots => ?_
  refine Judging.Ensures.bind _ _ _ _ (ensures_located env _ _) fun output houtput => ?_
  iterate 3 refine Judging.Ensures.after _ _ _ fun _ => ?_
  exact Judging.Ensures.pure _ _ ⟨hroots.names, fun _ => houtput⟩

theorem check_checked (config : Json) (s : Settings) (ws : List Warning)
    (h : check env strict config = .ok (s, ws)) : Checked env s := by
  have husual : Checked env (usual env.workdir) := ⟨List.nodup_nil, fun hnone => absurd rfl hnone⟩
  unfold check at h
  split at h
  · exact ensures_checkFields env strict _ [] s ws h
  · exact ensures_fault strict _ _ _ husual [] s ws h

end

end Settings

end DocNavigation
