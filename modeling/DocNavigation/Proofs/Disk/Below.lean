import DocNavigation.Proofs.Disk.Replace
import DocNavigation.Proofs.Named
import DocNavigation.Proofs.Path.Below

/-!
Names in the folder that a path leads to, however the path is written: looking them up, and making a
folder of a new name with a file in it. Regular disks are those that devices hold, so their folders
list what is in them; fresh folders are empty once they are made, with room for files in them and in
folders of theirs.
-/

namespace DocNavigation.Disk

section
variable (d : Disk) (atEnd : Bool) (more : List String) (hmore : more ≠ [])
include hmore

/-- A marker of the same folder makes no difference if it does not come last. -/
theorem walk_skip (follow : String → Place → List String → Except Refusal Found)
    (hfollow : ∀ t p rest, follow t p (rest ++ "." :: more) = follow t p (rest ++ more))
    (names : List String) (p : Place) :
    d.walk atEnd follow (names ++ "." :: more) p = d.walk atEnd follow (names ++ more) p := by
  induction names generalizing p with
  | nil =>
    rw [List.nil_append, List.nil_append, walk, if_pos rfl]
  | cons n names ih =>
    have hmarked : (names ++ "." :: more).isEmpty = false := by simp
    have hplain : (names ++ more).isEmpty = false := by simp [hmore]
    rw [List.cons_append, List.cons_append, walk, walk, hmarked, hplain]
    simp only [hfollow, ih]

theorem through_skip (links : Nat) (names : List String) (p : Place) :
    d.through atEnd links (names ++ "." :: more) p = d.through atEnd links (names ++ more) p := by
  induction links generalizing names p with
  | zero => exact walk_skip d atEnd more hmore _ (fun _ _ _ => rfl) names p
  | succ links ih =>
    apply walk_skip d atEnd more hmore
    intro t p rest
    rw [← List.append_assoc, ← List.append_assoc]
    exact ih _ _

end

theorem full_of_find (d : Disk) (atEnd : Bool) (path : String) (f : Found)
    (h : d.find atEnd path = .ok f) : path ≠ "" :=
  ((find_eq_ok_iff d atEnd path f).mp h).1

section
variable (d : Disk) (path s : String) (q : Place) (hq : d.find true path = .ok (.entry q .folder))
  (hs : Path.IsName s) (hshort : (Path.join path s).utf8ByteSize ≤ maxPathLength)
  (hname : s.utf8ByteSize ≤ maxNameLength)
include hq hs hshort hname

/-- A name is looked up in the folder that the path leads to. -/
theorem find_join : d.find false (Path.join path s) = .ok (d.landing (q ++ [s])) := by
  obtain ⟨hfull, -, hl⟩ := (find_eq_ok_iff d true path _).mp hq
  have hstart : d.start (Path.join path s) = d.start path := by
    rw [start, start, Path.isRooted_join path s hfull hs]
  have hinto := leads_into d s hs.dot hs.dots q maxLinks _ _ hl
  rw [nameAt, if_neg (Nat.not_lt.mpr hname)] at hinto
  rw [find, if_neg (Path.join_full path s hfull hs), if_neg (Nat.not_lt.mpr hshort), hstart,
    Path.namesIn_join path s hfull hs, ← hinto, namesIn]
  by_cases hend : Text.endsWith "/" path = true
  · rw [if_pos hend, List.append_assoc]
    exact (through_skip d false [s] (by simp) maxLinks _ _).symm
  · rw [if_neg hend, List.append_nil]

end

/-- The path of a folder in which files can be made, and folders of files. -/
structure Writable (d : Disk) (above : String) (q : Place) : Prop where
  wellFormed : d.WellFormed
  plain : ∃ names, Path.Plain above names
  noNull : above.toList.contains '\x00' = false
  found : d.find true above = .ok (.entry q .folder)
  device : ∀ step, d.failing.contains step = false

theorem Writable.extends (d d' : Disk) (above : String) (q : Place) (h : Writable d above q)
    (hd : d'.WellFormed) (hfailing : d'.failing = d.failing) (hmore : Extends d d') :
    Writable d' above q :=
  ⟨hd, h.plain, h.noNull, find_carried d d' (hmore.keeps d d') true _ _ h.found,
    fun step => hfailing ▸ h.device step⟩

/-- A name that the disk takes. -/
structure Nameable (s : String) : Prop where
  noNull : s.toList.contains '\x00' = false
  short : s.utf8ByteSize ≤ maxNameLength

instance (s : String) : Decidable (Nameable s) :=
  decidable_of_iff (s.toList.contains '\x00' = false ∧ s.utf8ByteSize ≤ maxNameLength)
    ⟨fun h => ⟨h.1, h.2⟩, fun h => ⟨h.noNull, h.short⟩⟩

/-- A name of a file. -/
structure FileName (s : String) : Prop where
  isName : Path.IsName s
  nameable : Nameable s

/-- A name that a file in the folder can have. -/
structure Fits (above s : String) : Prop extends FileName s where
  path : (Path.join above s).utf8ByteSize ≤ maxPathLength

section
variable (d : Disk) (above : String) (q : Place) (h : Writable d above q) (s : String)
  (hs : Fits above s)
include h hs

theorem Writable.find : d.find false (Path.join above s) = .ok (d.landing (q ++ [s])) :=
  find_join d above s q h.found hs.isName hs.path hs.nameable.short

theorem Writable.noNull_join : (Path.join above s).toList.contains '\x00' = false :=
  Path.join_noNull above s h.noNull hs.nameable.noNull

theorem Writable.resolve :
    d.resolve false (Path.join above s) = .ok (d.landing (q ++ [s])) :=
  (resolve_eq_ok_iff d false _ _).mpr ⟨h.noNull_join d above q s hs, h.find d above q s hs⟩

/-- A file can be put where no folder is. -/
theorem Writable.ready (hroom : (Path.join above sampleTemporary).utf8ByteSize ≤ maxPathLength)
    (hfolder : d.at? (q ++ [s]) ≠ some .folder) : Ready d (Path.join above s) q s := by
  obtain ⟨names, hplain⟩ := h.plain
  have habove := Path.folder_join above names s hplain hs.isName
  refine ⟨⟨names, Path.join_plain above names s hplain hs.isName⟩, h.noNull_join d above q s hs,
    hs.path, ?_, hs.nameable.short, fun step _ => h.device step, ?_, hfolder⟩
  · rw [habove]
    exact hroom
  · rw [habove]
    exact h.found

theorem Writable.run_makeFolders :
    (makeFolders (Path.join above s)).run d = (makeLast (Path.join above s)).run d := by
  obtain ⟨names, hplain⟩ := h.plain
  apply run_makeFolders_last
  apply not_lacks d _ _ (Path.join_plain above names s hplain hs.isName)
  intro _ _ _
  rw [Path.folder_join above names s hplain hs.isName]
  exact (isFolder_iff d above).mpr ⟨q, (resolve_eq_ok_iff d true _ _).mpr ⟨h.noNull, h.found⟩⟩

/-- A folder of a new name. -/
theorem Writable.makeFolders_new (hfree : d.at? (q ++ [s]) = none) :
    (makeFolders (Path.join above s)).run d = (.ok (), d.put (q ++ [s]) .folder) := by
  have hresolve := h.resolve d above q s hs
  rw [landing, hfree] at hresolve
  have hmade : (makeFolder (Path.join above s)).run d = (.ok (), d.put (q ++ [s]) .folder) := by
    rw [run_makeFolder, h.device, if_neg Bool.false_ne_true, hresolve]
  rw [h.run_makeFolders d above q s hs, run_makeLast, hmade]

/-- A file is not taken for a folder. -/
theorem Writable.makeFolders_taken (bytes : ByteArray)
    (hfile : d.at? (q ++ [s]) = some (.file bytes)) : (makeFolders (Path.join above s)).run d =
      (.error (.refused .taken (Path.join above s) none), d) := by
  have hresolve := h.resolve d above q s hs
  rw [landing, hfile] at hresolve
  have hnofolder : d.isFolder (Path.join above s) = false := by
    have hend := find_end d _ _ (by simp) ((resolve_eq_ok_iff d false _ _).mp hresolve).2
    rw [← Bool.not_eq_true, isFolder_iff]
    rintro ⟨x, hx⟩
    have hfound := ((resolve_eq_ok_iff d true _ _).mp hx).2
    rw [hend] at hfound
    cases hfound
  have hmade : (makeFolder (Path.join above s)).run d =
      (.error (.refused .taken (Path.join above s) none), d) := by
    rw [run_makeFolder, h.device, if_neg Bool.false_ne_true, hresolve]
  rw [h.run_makeFolders d above q s hs, run_makeLast, hmade]
  simp only [hnofolder]
  rfl

/-- The new folder is one to write in. -/
theorem Writable.put (hfree : d.at? (q ++ [s]) = none) :
    Writable (d.put (q ++ [s]) .folder) (Path.join above s) (q ++ [s]) := by
  obtain ⟨names, hplain⟩ := h.plain
  have hjoined := Path.join_plain above names s hplain hs.isName
  have hvacant := h.find d above q s hs
  rw [landing, hfree] at hvacant
  have hmade := put_last d h.wellFormed _ _ hjoined _ hvacant
  exact ⟨hmade.wellFormed, ⟨_, hjoined⟩, h.noNull_join d above q s hs, hmade.found,
    fun step => h.device step⟩

end

/-- The second disk has a new folder with a file in it. -/
structure Furnished (d d' : Disk) (q : Place) (s file : String) (bytes : ByteArray) : Prop where
  wellFormed : d'.WellFormed
  failing : d'.failing = d.failing
  kept : Extends d d'
  written : d'.at? (q ++ [s] ++ [file]) = some (.file bytes)
  others : ∀ t, t ≠ s → d'.at? (q ++ [t]) = d.at? (q ++ [t])

/-- Nothing is below a free place. -/
theorem WellFormed.none_below (d : Disk) (hd : d.WellFormed) (p : Place) (s : String)
    (hp : d.at? p = none) : d.at? (p ++ [s]) = none := by
  by_contra hsome
  obtain ⟨e, he⟩ := Option.ne_none_iff_exists'.mp hsome
  have hfolder := hd.above p s e he
  rw [hp] at hfolder
  cases hfolder

/-- A file that was placed in a folder just made. -/
theorem Placing.furnished (d d' : Disk) (q : Place) (s file : String) (bytes : ByteArray)
    (hd : d.WellFormed) (hfree : d.at? (q ++ [s]) = none)
    (h : Placing (d.put (q ++ [s]) .folder) d' (q ++ [s] ++ [file]) bytes) :
    Furnished d d' q s file bytes := by
  have hat : ∀ r, d'.at? r = if r = q ++ [s] ++ [file] then some (.file bytes)
      else if r = q ++ [s] then some .folder else d.at? r := by
    intro r
    rw [h.entries, at?_put d _ _ _ (by simp)]
  have hempty := hd.none_below d _ file hfree
  refine ⟨h.wellFormed, h.failing, ⟨h.workdir, ?_⟩, by rw [hat, if_pos rfl], ?_⟩
  · intro p e hp
    have hfile : p ≠ q ++ [s] ++ [file] := by
      intro heq
      rw [heq, hempty] at hp
      cases hp
    have hfolder : p ≠ q ++ [s] := by
      intro heq
      rw [heq, hfree] at hp
      cases hp
    rw [hat, if_neg hfile, if_neg hfolder]
    exact hp
  · intro t ht
    have hlength : q ++ [t] ≠ q ++ [s] ++ [file] := by
      intro heq
      have hlength := congrArg List.length heq
      simp at hlength
    have hother : q ++ [t] ≠ q ++ [s] := by simpa using ht
    rw [hat, if_neg hlength, if_neg hother]

section
variable (d : Disk) (above : String) (q : Place) (h : Writable d above q) (s file : String)
  (hs : Fits above s) (path text : String)
  (hpath : d.absolute path = Path.join (Path.join above s) file)
include h hs hpath

/-- A folder of a new name, and a file in it. -/
theorem Writable.furnish (hfile : Fits (Path.join above s) file)
    (hroom : (Path.join (Path.join above s) sampleTemporary).utf8ByteSize ≤ maxPathLength)
    (hfree : d.at? (q ++ [s]) = none) :
    ∃ d', Furnished d d' q s file text.toUTF8 ∧ ∀ host : Host, host.disk = d →
      (replaceFile path text "utf-8").run host =
        (.ok (d.absolute path), { host with disk := d' }) := by
  obtain ⟨names, hplain⟩ := h.plain
  have hjoined := Path.join_plain above names s hplain hs.isName
  have hwritable := h.put d above q s hs hfree
  have hempty : (d.put (q ++ [s]) .folder).at? (q ++ [s] ++ [file]) ≠ some .folder := by
    rw [at?_put d _ _ _ (by simp), if_neg (by simp), h.wellFormed.none_below d _ file hfree]
    exact nofun
  have hready := hwritable.ready _ _ _ file hfile hroom hempty
  have hmade := h.makeFolders_new d above q s hs hfree
  rw [← Path.folder_join _ _ file hjoined hfile.isName] at hmade
  rw [← hpath] at hmade hready
  obtain ⟨d', hplacing, hrun⟩ := replaceFile_made d _ path text "utf-8" _ _ file (encoded_utf8 text)
    hmade hwritable.wellFormed hready
  exact ⟨d', hplacing.furnished d d' q s file _ h.wellFormed hfree, hrun⟩

/-- Where a file has the name, no folder of that name can be made. -/
theorem Writable.furnish_taken (hfile : Path.IsName file) (bytes : ByteArray)
    (htaken : d.at? (q ++ [s]) = some (.file bytes)) (host : Host) (hdisk : host.disk = d) :
    (replaceFile path text "utf-8").run host =
      (.error (.disk (.refused .taken (Path.join above s) none)), host) := by
  obtain ⟨names, hplain⟩ := h.plain
  have hjoined := Path.join_plain above names s hplain hs.isName
  have hmade := h.makeFolders_taken d above q s hs bytes htaken
  rw [← Path.folder_join _ _ file hjoined hfile, ← hpath, ← hdisk] at hmade
  rw [replaceFile, Effect.run_bind, Act.run_disk]
  simp only
  rw [Effect.run_bind, Act.run_change, hmade]
  rw [hdisk, hpath, Path.folder_join _ _ file hjoined hfile]
  subst hdisk
  rfl

end

instance (s : String) : Decidable (FileName s) :=
  decidable_of_iff ((s ≠ "" ∧ s ≠ "." ∧ s ≠ ".." ∧ '/' ∉ s.toList) ∧ Nameable s)
    ⟨fun h => ⟨⟨h.1.1, h.1.2.1, h.1.2.2.1, h.1.2.2.2⟩, h.2⟩,
      fun h => ⟨⟨h.isName.full, h.isName.dot, h.isName.dots, h.isName.slash⟩, h.nameable⟩⟩

/-- Every entry lies in a folder, no place has two entries, and the names are ones that files can
have. -/
structure Regular (d : Disk) : Prop where
  wellFormed : d.WellFormed
  distinct : (d.entries.map (·.1)).Nodup
  names : ∀ e ∈ d.entries, ∀ s ∈ e.1, FileName s

theorem mem_children_iff (d : Disk) (p : Place) (s : String) (e : DiskEntry) :
    (s, e) ∈ d.children p ↔ (p ++ [s], e) ∈ d.entries := by
  rw [children, List.mem_filterMap]
  constructor
  · rintro ⟨⟨q, e'⟩, hq, hchild⟩
    cases hlast : q.getLast? with
    | none => simp [hlast] at hchild
    | some name =>
      obtain ⟨above, rfl⟩ := List.getLast?_eq_some_iff.mp hlast
      simp only [hlast, List.dropLast_concat] at hchild
      split at hchild
      case isTrue habove =>
        cases hchild
        exact habove ▸ hq
      case isFalse => cases hchild
  · intro h
    exact ⟨_, h, by simp⟩

section
variable (d : Disk) (hd : d.Regular)
include hd

theorem Regular.at?_iff (p : Place) (s : String) (e : DiskEntry) :
    d.at? (p ++ [s]) = some e ↔ (s, e) ∈ d.children p := by
  have hfind : d.at? (p ++ [s]) = (d.entries.find? (·.1 = p ++ [s])).map (·.2) :=
    if_neg (by simp)
  rw [hfind, Option.map_eq_some_iff, mem_children_iff]
  simp only [Named.find?_eq_some_iff _ d.entries hd.distinct]
  constructor
  · rintro ⟨⟨q, e'⟩, ⟨hmem, rfl⟩, rfl⟩
    exact hmem
  · exact fun hmem => ⟨_, ⟨hmem, rfl⟩, rfl⟩

theorem Regular.fileName (p : Place) (s : String) (e : DiskEntry)
    (h : d.at? (p ++ [s]) = some e) : FileName s :=
  hd.names _ ((mem_children_iff d p s e).mp ((hd.at?_iff d p s e).mp h)) s (by simp)

/-- A folder lists no name twice. -/
theorem Regular.children_distinct (p : Place) : (d.children p).Pairwise fun a b => a.1 ≠ b.1 := by
  refine List.Pairwise.filterMap _ ?_ (List.pairwise_map.mp hd.distinct)
  -- a child tells its place, as it does on a disk with one entry
  have hplace : ∀ x c, c ∈ children ⟨[], [x], []⟩ p → x.1 = p ++ [c.1] := by
    intro x c hc
    rw [List.mem_singleton.mp ((mem_children_iff ⟨[], [x], []⟩ p c.1 c.2).mp hc) |>.symm]
  intro x y hne b hb c hc hsame
  refine hne ((hplace x b ?_).trans ?_)
  · exact List.mem_filterMap.mpr ⟨x, List.mem_singleton_self x, hb⟩
  · rw [hsame]
    exact (hplace y c (List.mem_filterMap.mpr ⟨y, List.mem_singleton_self y, hc⟩)).symm

end

/-- Files of short names can be made and replaced in folders of the folder. -/
def HasRoom (path : String) : Prop :=
  path.utf8ByteSize + 1 + maxNameLength + 1 + sampleTemporary.utf8ByteSize ≤ maxPathLength

instance (path : String) : Decidable (HasRoom path) :=
  inferInstanceAs (Decidable (_ ≤ _))

section
variable (path s : String) (hfull : path ≠ "") (hroom : HasRoom path) (hs : FileName s)
include hfull hroom hs

theorem HasRoom.join : (Path.join path s).utf8ByteSize ≤ maxPathLength := by
  have hsize := Path.join_size path s hfull hs.isName
  have hshort := hs.nameable.short
  unfold HasRoom at hroom
  omega

theorem HasRoom.fits : Fits path s :=
  ⟨hs, hroom.join path s hfull hs⟩

theorem HasRoom.join_join (t : String) (ht : FileName t)
    (hshort : t.utf8ByteSize ≤ sampleTemporary.utf8ByteSize) :
    (Path.join (Path.join path s) t).utf8ByteSize ≤ maxPathLength := by
  have hsize := Path.join_size path s hfull hs.isName
  have hsize' := Path.join_size _ t (Path.join_full path s hfull hs.isName) ht.isName
  have hname := hs.nameable.short
  unfold HasRoom at hroom
  omega

end

theorem fileName_sampleTemporary : FileName sampleTemporary :=
  ⟨isName_sampleTemporary, by decide, by decide⟩

theorem absolute_join (d : Disk) (path s : String) (hs : Path.IsName s) :
    d.absolute (Path.join path s) = Path.join (d.absolute path) s :=
  Path.absolute_into _ path s (isRooted_textOf _) hs

/-- The path leads to a folder with nothing in it, once the folders on the way are made, and so does
its absolute form. -/
structure Fresh (d : Disk) (path : String) (d₁ : Disk) (q : Place) : Prop where
  made : (makeFolders (d.absolute path)).run d = (.ok (), d₁)
  found : d₁.resolve true path = .ok (.entry q .folder)
  absolute : d₁.resolve true (d.absolute path) = .ok (.entry q .folder)
  empty : ∀ s, d₁.at? (q ++ [s]) = none
  device : ∀ step, d.failing.contains step = false
  room : HasRoom path
  absoluteRoom : HasRoom (d.absolute path)

section
variable (d : Disk) (path : String) (d₁ : Disk) (q : Place) (h : Fresh d path d₁ q)
include h

theorem Fresh.full : path ≠ "" :=
  full_of_find d₁ true path _ ((resolve_eq_ok_iff d₁ true path _).mp h.found).2

variable (hd : d.WellFormed)
include hd

theorem Fresh.grown : ∃ x, Grown d d₁ x ∧ d₁.WellFormed := by
  obtain ⟨names, hplain⟩ := absolute_plain d path
  obtain ⟨x, hmade⟩ := makeFolders_ok _ names d d₁ hd hplain h.made
  exact ⟨x, hmade.grown, hmade.wellFormed⟩

theorem Fresh.writable : Writable d₁ (d.absolute path) q := by
  obtain ⟨x, hgrown, hd₁⟩ := h.grown d path d₁ q hd
  obtain ⟨hnull, hfound⟩ := (resolve_eq_ok_iff d₁ true _ _).mp h.absolute
  exact ⟨hd₁, absolute_plain d path, hnull, hfound, fun step => hgrown.failing ▸ h.device step⟩

/-- The first file that is put there. -/
theorem Fresh.replaceFile (s text : String) (hs : FileName s) :
    ∃ d₂, Placing d₁ d₂ (q ++ [s]) text.toUTF8 ∧ ∀ host : Host, host.disk = d →
      (replaceFile (Path.join path s) text "utf-8").run host =
        (.ok (d.absolute (Path.join path s)), { host with disk := d₂ }) := by
  obtain ⟨names, hplain⟩ := absolute_plain d path
  have hwritable := h.writable d path d₁ q hd
  have habsolute := absolute_join d path s hs.isName
  have hfull := Path.Plain.full _ names hplain
  have hready := hwritable.ready _ _ _ s (h.absoluteRoom.fits _ s hfull hs)
    (h.absoluteRoom.join _ _ hfull fileName_sampleTemporary) (by rw [h.empty]; exact nofun)
  have hmade := h.made
  rw [← Path.folder_join _ names s hplain hs.isName, ← habsolute] at hmade
  rw [← habsolute] at hready
  exact replaceFile_made d d₁ _ text "utf-8" _ q s (encoded_utf8 text) hmade hwritable.wellFormed
    hready

end

section
variable (d : Disk) (path s : String) (q : Place)
  (hq : d.resolve true path = .ok (.entry q .folder)) (hs : FileName s)
include hq hs

theorem resolve_join (e : DiskEntry) (he : d.at? (q ++ [s]) = some e) (hlink : ∀ t, e ≠ .link t)
    (hshort : (Path.join path s).utf8ByteSize ≤ maxPathLength) :
    d.resolve true (Path.join path s) = .ok (.entry (q ++ [s]) e) := by
  obtain ⟨hnull, hfound⟩ := (resolve_eq_ok_iff d true path _).mp hq
  have hjoined := find_join d path s q hfound hs.isName hshort hs.nameable.short
  rw [landing, he] at hjoined
  refine (resolve_eq_ok_iff d true _ _).mpr ⟨Path.join_noNull path s hnull hs.nameable.noNull, ?_⟩
  apply find_end d _ _ _ hjoined
  intro p t heq
  cases heq
  exact hlink t rfl

theorem readFile_join (bytes : ByteArray) (he : d.at? (q ++ [s]) = some (.file bytes))
    (hshort : (Path.join path s).utf8ByteSize ≤ maxPathLength) :
    d.readFile (Path.join path s) = .ok bytes :=
  (readFile_eq_ok_iff d _ bytes).mpr ⟨_, resolve_join d path s q hq hs _ he nofun hshort⟩

end

end DocNavigation.Disk
