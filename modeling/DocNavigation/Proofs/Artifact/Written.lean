import DocNavigation.Artifact.Files
import DocNavigation.Proofs.Artifact.RoundTrip
import DocNavigation.Proofs.Disk.Replace
import DocNavigation.Proofs.Disk.Text
import DocNavigation.Proofs.Registry.Reachable

/-!
Reading artifacts as an operation: which texts are accepted, and that all others are malformed. What
a written artifact holds, and that it loads as the registry it was written from.
-/

namespace DocNavigation.Artifact

theorem run_read (text : String) (source : Option String) (host : Host) :
    (read text source).run host = ((decode text source).mapError .malformed,
      { host with journal := host.journal ++ decodeNotes text source }) := by
  rw [read, Effect.run_bind, Act.run_notes]
  exact Act.run_lift _ _

end DocNavigation.Artifact

namespace DocNavigation.Artifact

/-- No reading of line ends changes an encoded registry. -/
theorem noReturn_encode (r : Registry) (hr : ∀ u ∈ r.units, u.WellFormed) :
    '\r' ∉ (encode r).toList := by
  rw [toList_encode]
  apply Json.return_not_mem_of_printable
  rw [List.forall_mem_map]
  exact fun v hv => Json.printable_text v (values_restorable r hr v hv)

theorem readText_encode (d : Disk) (path : String) (r : Registry) (hr : ∀ u ∈ r.units, u.WellFormed)
    (hread : d.readFile path = .ok (encode r).toUTF8) : d.readText path = .ok (encode r) :=
  Disk.readText_noReturn d path _ (noReturn_encode r hr) hread

theorem run_load (path text : String) (r : Registry) (h : Host)
    (hread : h.disk.readText path = .ok text) (hdecode : decode text (some path) = .ok r) :
    (load path).run h = (.ok r, { h with journal := h.journal ++ decodeNotes text (some path) }) := by
  rw [load, Effect.run_bind, Act.run_look, hread]
  simp only
  rw [run_read, hdecode]
  rfl

theorem run_write (r : Registry) (path : String) (h : Host) : (write r path).run h =
    match (Disk.replaceFile path (encode r) "utf-8").run h with
    | (.ok written, h') => (.ok written, { h' with journal := h'.journal ++
        [.info s!"Artifact: {r.size} units written to {written}"] })
    | (.error e, h') => (.error e, h') := by
  rw [write, Effect.run_bind]
  cases (Disk.replaceFile path (encode r) "utf-8").run h with
  | mk result h' =>
    cases result with
    | ok written => rfl
    | error e => rfl

theorem write_ok (r : Registry) (path written : String) (h h' : Host) (hd : h.disk.WellFormed)
    (hrun : (write r path).run h = (.ok written, h')) :
    written = h.disk.absolute path ∧
      ∃ q, Disk.Replaced h.disk h'.disk written (encode r).toUTF8 q := by
  rw [run_write] at hrun
  split at hrun
  case h_2 => cases hrun
  case h_1 _ h₁ hreplaced =>
    cases hrun
    obtain ⟨hwritten, d', bytes, q, rfl, hbytes, hq⟩ :=
      Disk.replaceFile_ok path (encode r) "utf-8" written h h₁ hd hreplaced
    rw [Disk.encoded_utf8] at hbytes
    cases hbytes
    exact ⟨hwritten, q, hq⟩

theorem only_write {γ : Type} {view : Host → γ} (hview : Act.Sees view) (r : Registry)
    (path : String) : Act.Only view (write r path) := by
  apply Act.Only.bind _ _ (Disk.only_replaceFile hview _ _ _)
  intro written
  exact Act.Only.bind _ _ (Act.only_note hview _) fun _ => Act.only_pure _

theorem diskOnly_write (r : Registry) (path : String) : Act.Only Host.disk (write r path) :=
  only_write Act.sees_disk r path

end DocNavigation.Artifact
