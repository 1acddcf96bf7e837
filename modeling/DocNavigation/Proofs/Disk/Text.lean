import DocNavigation.Disk.Text
import DocNavigation.Proofs.Disk.Temporary
import DocNavigation.Proofs.Text.Lines
import DocNavigation.Proofs.Text.Utf8

/-!
Files that hold the bytes of a text. What is written to a path is read from it.
-/

namespace DocNavigation.Disk

theorem exists_bytes (d : Disk) (path : String) (h : d.isFile path = true) :
    ∃ bytes, d.bytes path = .ok bytes := by
  unfold isFile entry? at h
  split at h
  case h_1 bytes hentry =>
    split at hentry
    case h_1 p e hresolve =>
      cases hentry
      exact ⟨bytes, by rw [Disk.bytes, readFile, hresolve]; rfl⟩
    case h_2 => cases hentry
  case h_2 => cases h

theorem readText_of_bytes (d : Disk) (path : String) (bytes : ByteArray)
    (hbytes : d.bytes path = .ok bytes) : d.readText path = match Text.Utf8.decode bytes with
    | .ok s => .ok (String.ofList (Text.unifyNewlines s.toList))
    | .error f => .error (.decoding f) := by
  simp only [readText, hbytes]
  cases Text.Utf8.decode bytes <;> rfl

theorem readText_toUTF8 (d : Disk) (path content : String)
    (hread : d.readFile path = .ok content.toUTF8) :
    d.readText path = .ok (String.ofList (Text.unifyNewlines content.toList)) := by
  have hbytes : d.bytes path = .ok content.toUTF8 := by
    rw [bytes, hread]
    rfl
  rw [readText_of_bytes d path _ hbytes, Text.Utf8.decode_toUTF8]

theorem readText_noReturn (d : Disk) (path content : String) (h : '\r' ∉ content.toList)
    (hread : d.readFile path = .ok content.toUTF8) : d.readText path = .ok content := by
  rw [readText_toUTF8 d path content hread, Text.unifyNewlines_of_noReturn _ h, String.ofList_toList]

/-- Where nothing is there, nothing can be read. -/
theorem isThere_of_readText (d : Disk) (path text : String) (h : d.readText path = .ok text) :
    d.isThere path = true := by
  unfold readText at h
  split at h
  · cases h
  · next bytes hbytes =>
    have hread := (Result.mapError_eq_ok_iff _ _ _).mp hbytes
    obtain ⟨p, hp⟩ := (readFile_eq_ok_iff d path bytes).mp hread
    obtain ⟨hnull, hp⟩ := (resolve_eq_ok_iff d true path _).mp hp
    exact isThere_of_find d path p _ hnull hp

theorem leads_followed (d : Disk) (links : Nat) (names : List String) (p : Place) (f : Found)
    (h : d.Leads true links names p f) : ∀ q u, f ≠ .entry q (.link u) := by
  induction h with
  | arrives links p =>
    rintro q u ⟨⟩
  | here links rest p f _ ih => exact ih
  | up links rest p f _ ih => exact ih
  | down links s rest p f _ _ _ ih => exact ih
  | stops links s p _ _ hlink =>
    intro q u hf
    cases hlink u (landing_entry d _ q (.link u) hf)
  | across links s t rest p f _ _ _ _ ih => exact ih

/-- Where links at the end are followed, none is found. -/
theorem find_followed (d : Disk) (path : String) (f : Found) (hf : d.find true path = .ok f) :
    ∀ q u, f ≠ .entry q (.link u) :=
  leads_followed d maxLinks _ _ f ((find_eq_ok_iff d true path f).mp hf).2.2

/-- What is written goes to a file or a free name that the path leads to. -/
theorem writable_ok (d : Disk) (path : String) (p : Place) (h : d.writable path = .ok p) :
    ∃ f, d.resolve true path = .ok f ∧ f.place = p ∧ ∀ q, f ≠ .entry q .folder := by
  unfold writable at h
  simp only at h
  split at h
  · split at h
    · cases h
    · split at h <;> cases h
  · split at h
    · cases h
    · cases h
    · next q e hnofolder hf =>
      cases h
      refine ⟨_, hf, rfl, ?_⟩
      rintro r heq
      cases heq
      exact hnofolder rfl
    · next q hf =>
      cases h
      exact ⟨_, hf, rfl, nofun⟩

theorem writeFile_ok (d d' : Disk) (path : String) (bytes : ByteArray)
    (h : (writeFile path bytes).run d = (.ok (), d')) :
    ∃ p, d.writable path = .ok p ∧ d' = d.put p (.file bytes) := by
  rw [writeFile, Effect.run_bind, Effect.run_get] at h
  simp only at h
  split at h
  · cases h
  · next p hp =>
    obtain ⟨-, h⟩ := run_attempt_ok .create _ d d' () h
    rw [Effect.bind_eq_ok_iff] at h
    obtain ⟨_, d₁, hempty, h⟩ := h
    cases hempty
    obtain ⟨-, rfl⟩ := putFile_ok _ _ _ _ h
    exact ⟨p, hp, put_put d p _ _⟩

theorem landing_of_located (d : Disk) (f : Found) (h : d.Located f) : d.landing f.place = f := by
  cases f with
  | entry p e =>
    have hhere : d.at? p = some e := h
    rw [Found.place, landing, hhere]
  | vacant p => rw [Found.place, landing, h.1]

/-- A path that led to a file or a free name leads to what is there now. -/
theorem Carried.landing (d' : Disk) (f : Found) (r : Except Refusal Found) (h : Carried d' f r)
    (hnofolder : ∀ q, f ≠ .entry q .folder) (hfollowed : ∀ q t, f ≠ .entry q (.link t))
    (hlink : ∀ t, d'.at? f.place ≠ some (.link t)) : r = .ok (d'.landing f.place) := by
  cases f with
  | vacant p => exact h hlink
  | entry p e =>
    cases e with
    | file bytes => exact h hlink
    | folder => exact absurd rfl (hnofolder p)
    | link t => exact absurd rfl (hfollowed p t)

/-- A file that was written is read back through the same path. -/
theorem readFile_writeFile (d d' : Disk) (hd : d.WellFormed) (path : String) (bytes : ByteArray)
    (h : (writeFile path bytes).run d = (.ok (), d')) :
    d'.WellFormed ∧ d'.workdir = d.workdir ∧ d'.readFile path = .ok bytes := by
  obtain ⟨p, hp, rfl⟩ := writeFile_ok d d' path bytes h
  obtain ⟨f, hf, rfl, hnofolder⟩ := writable_ok d path p hp
  obtain ⟨hnull, hf⟩ := (resolve_eq_ok_iff d true path f).mp hf
  have hlanding := landing_of_located d f (find_located d hd true path f hf)
  have hfolder : d.at? f.place ≠ some .folder := by
    intro hfolder
    rw [landing, hfolder] at hlanding
    exact hnofolder f.place hlanding.symm
  have hfollowed := find_followed d path f hf
  have hlink : ∀ t, d.at? f.place ≠ some (.link t) := by
    intro t ht
    rw [landing, ht] at hlanding
    exact hfollowed f.place t hlanding.symm
  have habove := located_above d hd true path f hf
  obtain ⟨q, s, hplace⟩ := (List.eq_nil_or_concat' f.place).resolve_left
    fun hroot => hfolder (hroot ▸ rfl)
  rw [hplace, List.dropLast_concat] at habove
  have hput := fun r => at?_put d f.place r (.file bytes) (by simp [hplace])
  have hformed : (d.put f.place (.file bytes)).WellFormed :=
    hplace ▸ put_wellFormed d hd q s (.file bytes) habove (hplace ▸ hfolder)
  have hkeeps : Keeps d (d.put f.place (.file bytes)) :=
    keeps_of_others d _ f.place rfl (fun r hr => by rw [hput, if_neg hr]) hfolder hlink
  have hhere : (d.put f.place (.file bytes)).at? f.place = some (.file bytes) := by
    rw [hput, if_pos rfl]
  have hnow := (find_carried d _ hkeeps true path f hf).landing _ f _ hnofolder hfollowed
    (by rw [hhere]; rintro t ⟨⟩)
  rw [landing, hhere] at hnow
  exact ⟨hformed, rfl, (readFile_eq_ok_iff _ path bytes).mpr
    ⟨f.place, (resolve_eq_ok_iff _ true path _).mpr ⟨hnull, hnow⟩⟩⟩

end DocNavigation.Disk
