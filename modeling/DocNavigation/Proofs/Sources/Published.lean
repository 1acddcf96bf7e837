import DocNavigation.Proofs.Artifact.Unified
import DocNavigation.Proofs.Sources.Isolated

/-!
The same bytes in a file and on the network. Reading a file unifies its line endings, and a download
keeps them. Both come to the same unless a carriage return stands where it ends a line for one of
them and not for the other.
-/

namespace DocNavigation.Sources

/-- The same registry, or a failure of each. -/
inductive Alike : Loaded → Loaded → Prop
  | registry (r : Registry) : Alike ⟨[r], []⟩ ⟨[r], []⟩
  | failure (f g : SourceFailure) : Alike ⟨[], [f]⟩ ⟨[], [g]⟩

theorem alike_iff (source other : String) (here there : Loaded) (hhere : OutcomeOf source here)
    (hthere : OutcomeOf other there) : Alike here there ↔ here.registries = there.registries := by
  cases hhere with
  | registry r =>
    cases hthere with
    | registry s =>
      constructor
      · intro h
        cases h
        rfl
      · intro h
        cases h
        exact .registry r
    | failure message => exact ⟨nofun, nofun⟩
  | failure message =>
    cases hthere with
    | registry s => exact ⟨nofun, nofun⟩
    | failure message' => exact iff_of_true (.failure _ _) rfl

/-- A single source comes to what it gives on the machine. -/
theorem load_single (source : String) (h : Host) (hreadable : IsReadable source) :
    ∃ outcome k, (load [source]).run h = (.ok outcome, k) ∧ OutcomeOf source outcome ∧
      outcome.registries = (loaded? h source).toList := by
  have hall : ∀ s ∈ [source], IsReadable s := List.forall_mem_singleton.mpr hreadable
  obtain ⟨loaded, k, hrun, -, hisolated⟩ := (load_isolates [source] h).loads hall
  obtain ⟨loaded', k', hrun', -, hregistries⟩ := run_load_readable [source] hall h
  obtain ⟨outcomes, honly, -⟩ := hisolated.alone
  cases honly with
  | @cons _ outcome _ _ hone _ =>
    obtain ⟨⟨k'', halone⟩, hof⟩ := hone
    obtain rfl := Except.ok.inj (Prod.mk.inj (hrun.symm.trans hrun')).1
    obtain rfl := Except.ok.inj (Prod.mk.inj (hrun.symm.trans halone)).1
    refine ⟨loaded, k, hrun, hof, ?_⟩
    rw [hregistries]
    cases hloaded : loaded? h source <;> simp [hloaded]

theorem toOption_decoded (r : Except Malformed Registry) :
    ((r.mapError Fault.malformed).map Except.ok).toOption.bind
      (Except.toOption (ε := String)) = r.toOption := by
  cases r <;> rfl

section
variable (h : Host) (bytes : ByteArray)

/-- A file gives what its text holds, with the line endings unified. -/
theorem loaded?_file (path : String) (hpath : Path.isRemote path = false)
    (hfile : h.disk.readFile path = .ok bytes) : loaded? h path =
      match Text.Utf8.decode bytes with
      | .error _ => none
      | .ok text => (Artifact.decode (Artifact.unified text) (some path)).toOption := by
  have hloads : ((loadAny path).run h).1 = ((loadFile path).run h).1 := by
    rw [loadAny, if_neg (by rw [hpath]; decide)]
  have htext : h.disk.readText path =
      ((Text.Utf8.decode bytes).mapError Fault.decoding).map Artifact.unified := by
    simp only [Disk.readText, Disk.bytes, hfile, Except.mapError]
    cases Text.Utf8.decode bytes <;> rfl
  rw [loaded?, hloads, run_loadFile, htext]
  cases Text.Utf8.decode bytes with
  | error f => rfl
  | ok text => exact toOption_decoded _

/-- A download gives what its text holds. -/
theorem loaded?_answer (url reason : String) (hurl : Path.isRemote url = true)
    (hreply : h.web.reply url = .answer 200 reason bytes) (hsize : bytes.size ≤ Web.maxBytes) :
    loaded? h url =
      match Text.Utf8.decode bytes with
      | .error _ => none
      | .ok text => (Artifact.decode text (some url)).toOption := by
  have hreceived : (Web.received url Web.usualTimeout (.answer 200 reason bytes)).1 =
      (Text.Utf8.decode bytes).toOption := by
    have hgood : (Reply.answer 200 reason bytes).refusal? url = none := rfl
    unfold Web.received
    simp only [hgood, if_neg (Nat.not_lt.mpr hsize)]
    cases Text.Utf8.decode bytes <;> rfl
  have hfetch : ∃ k, (Web.fetch url Web.usualTimeout).run h =
      (.ok (Text.Utf8.decode bytes).toOption, k) := by
    rw [← hreceived, ← hreply]
    exact ⟨_, rfl⟩
  obtain ⟨k, hfetch⟩ := hfetch
  rw [loaded?, loadAny, if_pos hurl, Effect.run_bind, hfetch]
  cases Text.Utf8.decode bytes with
  | error f => rfl
  | ok text =>
    simp only [Except.toOption]
    rw [run_text]
    exact toOption_decoded _

theorem readable_of_readFile (d : Disk) (path : String) (hfile : d.readFile path = .ok bytes) :
    IsReadable path := by
  refine .inr (Bool.eq_false_iff.mpr fun hnull => ?_)
  rw [Disk.readFile, Disk.resolve, if_pos hnull] at hfile
  cases hfile

end

/-- What a text gives in a file and on the network. -/
theorem registries_alike (text path url : String) (here there : List Registry)
    (hhere : here = (Artifact.decode (Artifact.unified text) (some path)).toOption.toList)
    (hthere : there = (Artifact.decode text (some url)).toOption.toList) :
    (∀ r s, here = [r] → there = [s] → r = s) ∧
    (here = there ↔ (here = [] ∧ there = []) ∨
      ∀ line ∈ Artifact.significantLines text.toList, Artifact.Whole line) := by
  have hwhole := Artifact.decode_whole text (some url) (some path)
  have hboth := Artifact.decode_both text (some url) (some path)
  cases hr : Artifact.decode text (some url) with
  | error m =>
    cases hs : Artifact.decode (Artifact.unified text) (some path) with
    | error n =>
      rw [hs] at hhere
      rw [hr] at hthere
      subst hhere hthere
      exact ⟨nofun, iff_of_true rfl (.inl ⟨rfl, rfl⟩)⟩
    | ok s =>
      rw [hs] at hhere hwhole
      rw [hr] at hthere hwhole
      subst hhere hthere
      refine ⟨nofun, iff_of_false nofun ?_⟩
      rintro (⟨hnone, -⟩ | hall)
      · cases hnone
      · exact nomatch (hwhole hall s).mp rfl
  | ok r =>
    cases hs : Artifact.decode (Artifact.unified text) (some path) with
    | error n =>
      rw [hs] at hhere hwhole
      rw [hr] at hthere hwhole
      subst hhere hthere
      refine ⟨nofun, iff_of_false nofun ?_⟩
      rintro (⟨-, hnone⟩ | hall)
      · cases hnone
      · exact nomatch (hwhole hall r).mpr rfl
    | ok s =>
      obtain ⟨rfl, hall⟩ := hboth r s hr hs
      rw [hs] at hhere
      rw [hr] at hthere
      subst hhere hthere
      refine ⟨?_, iff_of_true rfl (.inr hall)⟩
      intro a b ha hb
      exact List.singleton_inj.mp (ha.symm.trans hb)

section
variable (h : Host) (bytes : ByteArray) (path url reason : String)
  (hpath : Path.isRemote path = false) (hfile : h.disk.readFile path = .ok bytes)
  (hurl : Path.isRemote url = true) (hreply : h.web.reply url = .answer 200 reason bytes)
  (hsize : bytes.size ≤ Web.maxBytes)
include hpath hfile hurl hreply hsize

/-- A file and an address with the same bytes are each a registry or a failure. Two registries are
equal, and bytes that are no text fail in both places. A text comes to the same in both unless it
gives a registry in one of them and a carriage return cuts off more than white space, which those
before line feeds never do. -/
theorem local_published : ∃ here there k k',
    (load [path]).run h = (.ok here, k) ∧ (load [url]).run h = (.ok there, k') ∧
    OutcomeOf path here ∧ OutcomeOf url there ∧
    (∀ r s, here.registries = [r] → there.registries = [s] → r = s) ∧
    (∀ f, Text.Utf8.decode bytes = .error f → here.registries = [] ∧ there.registries = []) ∧
    ∀ text, Text.Utf8.decode bytes = .ok text →
      (Text.NoLoneReturn text.toList → Alike here there) ∧
      (Alike here there ↔ (here.registries = [] ∧ there.registries = []) ∨
        ∀ line ∈ Artifact.significantLines text.toList, Artifact.Whole line) := by
  obtain ⟨here, k, hrun, hof, hhere⟩ :=
    load_single path h (readable_of_readFile bytes h.disk path hfile)
  obtain ⟨there, k', hrun', hof', hthere⟩ := load_single url h (.inl hurl)
  rw [loaded?_file h bytes path hpath hfile] at hhere
  rw [loaded?_answer h bytes url reason hurl hreply hsize] at hthere
  refine ⟨here, there, k, k', hrun, hrun', hof, hof', ?_, ?_, ?_⟩
  · intro r s hr hs
    cases htext : Text.Utf8.decode bytes with
    | error f =>
      rw [htext, hr] at hhere
      cases hhere
    | ok text =>
      simp only [htext] at hhere hthere
      exact (registries_alike text path url _ _ hhere hthere).1 r s hr hs
  · intro f hf
    rw [hf] at hhere hthere
    exact ⟨hhere, hthere⟩
  · intro text htext
    simp only [htext] at hhere hthere
    have halike := (registries_alike text path url _ _ hhere hthere).2
    rw [alike_iff path url here there hof hof']
    exact ⟨fun hnone => halike.mpr (.inr (Artifact.whole_of_noLoneReturn text hnone)), halike⟩

end

/-- A machine with this text in a file, and published. -/
def twoPlaces (text : String) : Host where
  disk := { workdir := [], entries := [(["a"], .file text.toUTF8)] }
  web := ⟨[("https://a", .answer 200 "OK" text.toUTF8)]⟩

/-- An artifact with line endings of two characters, and with no line at all for the units. -/
def returnEnds : String :=
  "\x7b\"format\":\"navindex\",\"version\":1,\"units\":[]\x7d\r\n\r\n"

theorem local_published_returnEnds : ∃ here there k k',
    (load ["a"]).run (twoPlaces returnEnds) = (.ok here, k) ∧
    (load ["https://a"]).run (twoPlaces returnEnds) = (.ok there, k') ∧
    Alike here there ∧ here.registries.length = 1 := by
  obtain ⟨here, there, k, k', hhere, hthere, -, -, -, -, htext⟩ :=
    local_published (twoPlaces returnEnds) returnEnds.toUTF8 "a" "https://a" "OK" (by decide)
      (by decide +kernel) (by decide) (by decide +kernel) (by decide +kernel)
  have hone : ((load ["a"]).run (twoPlaces returnEnds)).1.toOption.map (fun loaded =>
      loaded.registries.length) = some 1 := by decide +kernel
  rw [hhere] at hone
  exact ⟨here, there, k, k', hhere, hthere,
    (htext returnEnds (by decide +kernel)).1 (by decide +kernel), Option.some.inj hone⟩

/-- A carriage return between two fields of the header. -/
def returnInside : String :=
  "\x7b\"format\":\"navindex\",\r\"version\":1,\"units\":[]\x7d\n"

/-- The file cannot be loaded, and the download is. -/
theorem published_only_returnInside :
    ((load ["a"]).run (twoPlaces returnInside)).1.toOption.map (fun loaded =>
      (loaded.registries.length, loaded.failures.length)) = some (0, 1) ∧
    ((load ["https://a"]).run (twoPlaces returnInside)).1.toOption.map (fun loaded =>
      (loaded.registries.length, loaded.failures.length)) = some (1, 0) := by
  decide +kernel

end DocNavigation.Sources
