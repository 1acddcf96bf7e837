import DocNavigation.Proofs.Disk.Folders

/-!
Null characters in paths. Where a path has none, no operation on it fails because of one, whatever
the disk refuses.
-/

namespace DocNavigation.Disk

/-- The operation never fails because of a null character in a path. -/
def Spared (x : DiskAct α) : Prop :=
  ∀ d, (x.run d).1 ≠ .error .nullByte

theorem Spared.bind (x : DiskAct α) (f : α → DiskAct β) (hx : Spared x) (hf : ∀ a, Spared (f a)) :
    Spared (x >>= f) := by
  intro d
  rw [Effect.run_bind]
  have hd := hx d
  generalize x.run d = o at hd ⊢
  obtain ⟨r, d'⟩ := o
  cases r with
  | ok a => exact hf a d'
  | error e => exact fun h => hd (congrArg _ (Except.error.inj h))

theorem Spared.tryCatch (x : DiskAct α) (f : DiskError → DiskAct α) (hx : Spared x)
    (hf : ∀ e, e ≠ .nullByte → Spared (f e)) : Spared (tryCatch x f) := by
  intro d
  rw [Effect.run_tryCatch]
  have hd := hx d
  generalize x.run d = o at hd ⊢
  obtain ⟨r, d'⟩ := o
  cases r with
  | ok a => exact nofun
  | error e => exact hf e (fun he => hd (congrArg _ he)) d'

theorem spared_pure (a : α) : Spared (pure a : DiskAct α) := fun _ => nofun

theorem spared_throw (e : DiskError) (h : e ≠ .nullByte) : Spared (throw e : DiskAct α) :=
  fun _ he => h (Except.error.inj he)

theorem spared_get : Spared (get : DiskAct Disk) := fun _ => nofun

theorem spared_modify (f : Disk → Disk) : Spared (modify f : DiskAct PUnit) := fun _ => nofun

theorem spared_attempt (step : DiskStep) : Spared (attempt step) := by
  intro d
  rw [run_attempt]
  split <;> exact nofun

theorem spared_apply (f : Disk → Except DiskError Disk) (h : ∀ d, f d ≠ .error .nullByte) :
    Spared (apply f) := by
  intro d
  rw [run_apply]
  have hd := h d
  cases hf : f d with
  | ok d' => exact nofun
  | error e => exact fun he => hd (hf.trans (congrArg _ (Except.error.inj he)))

theorem lastName_noNull (path : String) (h : path.toList.contains '\x00' = false) :
    (lastName path).1.toList.contains '\x00' = false := by
  have hfolder := Path.folder_noNull path h
  change (if (Path.split path).2 = "" then Path.split (Path.folder path)
    else Path.split path).1.toList.contains '\x00' = false
  split
  · exact Path.folder_noNull _ hfolder
  · exact hfolder

section
variable (path : String) (hnull : path.toList.contains '\x00' = false)
include hnull

theorem resolve_spared (d : Disk) (atEnd : Bool) : d.resolve atEnd path ≠ .error .nullByte := by
  rw [resolve, hnull]
  cases d.find atEnd path <;> exact nofun

theorem writable_spared (d : Disk) : d.writable path ≠ .error .nullByte := by
  unfold writable
  split
  case isTrue =>
    obtain ⟨rest, hrest⟩ := Path.isPrefix_dropSlashes path.toList
    have habove :
        (String.ofList (Path.dropSlashes path.toList)).toList.contains '\x00' = false := by
      rw [← hrest, List.contains_append, Bool.or_eq_false_iff] at hnull
      rw [String.toList_ofList]
      exact hnull.1
    have hspared := resolve_spared _ habove d false
    simp only
    split
    · exact nofun
    · split
      · exact nofun
      · next e _ he => exact fun h => hspared (he.trans (congrArg _ (Except.error.inj h)))
      · exact nofun
  case isFalse =>
    have hspared := resolve_spared path hnull d true
    split
    · next e he => exact fun h => hspared (he.trans (congrArg _ (Except.error.inj h)))
    all_goals exact nofun

theorem spared_appendFile (bytes : ByteArray) : Spared (appendFile path bytes) := by
  refine Spared.bind _ _ spared_get fun d => ?_
  have hspared := writable_spared path hnull d
  cases hw : d.writable path with
  | error e =>
    rw [hw] at hspared
    exact spared_throw e fun he => hspared (congrArg _ he)
  | ok p =>
    refine Spared.bind _ _ (spared_attempt _) fun _ => ?_
    refine Spared.bind _ _ (spared_modify _) fun _ => ?_
    exact Spared.bind _ _ (spared_attempt _) fun _ => spared_modify _

theorem spared_makeFolder : Spared (makeFolder path) := by
  refine Spared.bind _ _ (spared_attempt _) fun _ => spared_apply _ fun d => ?_
  have hspared := resolve_spared path hnull d false
  split
  · next e he => exact fun h => hspared (he.trans (congrArg _ (Except.error.inj h)))
  all_goals exact nofun

theorem spared_makeLast : Spared (makeLast path) := by
  refine Spared.tryCatch _ _ (spared_makeFolder path hnull) fun e he => ?_
  refine Spared.bind _ _ spared_get fun d => ?_
  split
  · exact spared_pure _
  · exact spared_throw e he

theorem spared_makeFoldersBelow (fuel : Nat) : Spared (makeFoldersBelow fuel path) := by
  induction fuel generalizing path with
  | zero => exact spared_pure _
  | succ fuel ih =>
    have habove := ih (lastName path).1 (lastName_noNull path hnull)
    have hlast := spared_makeLast path hnull
    unfold makeFoldersBelow
    generalize lastName path = l at habove
    obtain ⟨above, name⟩ := l
    refine Spared.bind _ _ spared_get fun d => ?_
    simp only
    split
    · refine Spared.bind _ _ (Spared.tryCatch _ _ habove fun e he => ?_) fun _ => hlast
      split
      · exact spared_pure _
      · exact spared_throw _ he
    · exact hlast

theorem spared_makeFolders : Spared (makeFolders path) :=
  spared_makeFoldersBelow path hnull _

end

end DocNavigation.Disk
