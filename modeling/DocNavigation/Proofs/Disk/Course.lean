import DocNavigation.Proofs.Disk.Lookup
import DocNavigation.Proofs.Path.Below

/-!
The places that following a path can come by. Changes of a disk at other places leave alone where
the path leads.
-/

namespace DocNavigation.Disk

/-- What paths are followed through: links, and places where a folder is or can be made. -/
structure Ground where
  links : Place → String → Prop
  opens : Place → Prop

def ground (d : Disk) : Ground where
  links q t := d.at? q = some (.link t)
  opens q := d.at? q = none ∨ d.at? q = some .folder

/-- Following names from a place, these names can be still to go when this folder is reached. -/
inductive Comes (g : Ground) (names : List String) (p : Place) : List String → Place → Prop
  | start : Comes g names p names p
  | here (rest : List String) (q : Place) (h : Comes g names p ("." :: rest) q) :
      Comes g names p rest q
  | up (rest : List String) (q : Place) (h : Comes g names p (".." :: rest) q) :
      Comes g names p rest q.dropLast
  | down (s : String) (rest : List String) (q : Place) (h : Comes g names p (s :: rest) q)
      (hdot : s ≠ ".") (hdots : s ≠ "..") (hopen : g.opens (q ++ [s])) :
      Comes g names p rest (q ++ [s])
  | across (s t : String) (rest : List String) (q : Place) (h : Comes g names p (s :: rest) q)
      (hdot : s ≠ ".") (hdots : s ≠ "..") (hlink : g.links (q ++ [s]) t) :
      Comes g names p (namesIn t ++ rest) (if Path.isRooted t then [] else q)

/-- A place that can be looked at, with these names still to go after it. -/
inductive Meets (g : Ground) (names : List String) (p : Place) (rest : List String) : Place → Prop
  | intro (s : String) (q : Place) (h : Comes g names p (s :: rest) q) (hdot : s ≠ ".")
      (hdots : s ≠ "..") : Meets g names p rest (q ++ [s])

/-- What a path can come by on a disk. -/
def Passes (d : Disk) (g : Ground) (path : String) : List String → Place → Prop :=
  Meets g (namesIn path) (d.start path)

theorem Meets.ne_nil (g : Ground) (names rest : List String) (p q : Place)
    (h : Meets g names p rest q) : q ≠ [] := by
  obtain ⟨s, q, -, -, -⟩ := h
  simp

theorem Comes.append (g : Ground) (names more rest : List String) (p q : Place)
    (h : Comes g names p rest q) : Comes g (names ++ more) p (rest ++ more) q := by
  induction h with
  | start => exact .start
  | here rest q _ ih => exact .here _ q ih
  | up rest q _ ih => exact .up _ q ih
  | down s rest q _ hdot hdots hopen ih => exact .down s _ q ih hdot hdots hopen
  | across s t rest q _ hdot hdots hlink ih =>
    rw [List.append_assoc]
    exact .across s t _ q ih hdot hdots hlink

theorem Meets.append (g : Ground) (names more rest : List String) (p q : Place)
    (h : Meets g names p rest q) : Meets g (names ++ more) p (rest ++ more) q := by
  obtain ⟨s, q, h, hdot, hdots⟩ := h
  exact .intro s q (h.append g names more _ p q) hdot hdots

/-- Where more can be followed, more places are met. -/
theorem Comes.mono (g g' : Ground) (names rest : List String) (p q : Place)
    (hlinks : ∀ r t rest, Meets g' names p rest r → g.links r t → g'.links r t)
    (hopens : ∀ r rest, Meets g' names p rest r → g.opens r → g'.opens r)
    (h : Comes g names p rest q) : Comes g' names p rest q := by
  induction h with
  | start => exact .start
  | here rest q _ ih => exact .here _ q ih
  | up rest q _ ih => exact .up _ q ih
  | down s rest q _ hdot hdots hopen ih =>
    exact .down s _ q ih hdot hdots (hopens _ rest (.intro s q ih hdot hdots) hopen)
  | across s t rest q _ hdot hdots hlink ih =>
    exact .across s t _ q ih hdot hdots (hlinks _ t rest (.intro s q ih hdot hdots) hlink)

theorem Meets.mono (g g' : Ground) (names rest : List String) (p q : Place)
    (hlinks : ∀ r t rest, Meets g' names p rest r → g.links r t → g'.links r t)
    (hopens : ∀ r rest, Meets g' names p rest r → g.opens r → g'.opens r)
    (h : Meets g names p rest q) : Meets g' names p rest q := by
  obtain ⟨s, q, h, hdot, hdots⟩ := h
  exact .intro s q (h.mono g g' names _ p q hlinks hopens) hdot hdots

/-- One name further. -/
theorem takes_next (names rest : List String) (s : String) (n : Nat)
    (h : s :: rest = names.drop n) :
    n < names.length ∧ names.take n ++ [s] = names.take (n + 1) ∧ rest = names.drop (n + 1) := by
  have hnext : names[n]? = some s := by
    rw [← Nat.add_zero n, ← List.getElem?_drop, ← h]
    rfl
  refine ⟨(List.getElem?_eq_some_iff.mp hnext).1, ?_, ?_⟩
  · rw [List.take_add_one, hnext]
    rfl
  · rw [← List.tail_drop, ← h]
    rfl

/-- Where there are no links, names are followed straight down. -/
theorem Comes.straight (g : Ground) (names rest : List String) (p q : Place)
    (hnames : ∀ s ∈ names, s ≠ "." ∧ s ≠ "..") (hlinks : ∀ r t, ¬ g.links r t)
    (h : Comes g names p rest q) :
    ∃ n, q = p ++ names.take n ∧ rest = names.drop n := by
  induction h with
  | start => exact ⟨0, by simp, rfl⟩
  | here rest q _ ih =>
    obtain ⟨n, -, hrest⟩ := ih
    exact absurd rfl (hnames "." (List.mem_of_mem_drop (hrest ▸ List.mem_cons_self ..))).1
  | up rest q _ ih =>
    obtain ⟨n, -, hrest⟩ := ih
    exact absurd rfl (hnames ".." (List.mem_of_mem_drop (hrest ▸ List.mem_cons_self ..))).2
  | down s rest q _ _ _ _ ih =>
    obtain ⟨n, rfl, hrest⟩ := ih
    obtain ⟨-, htake, hdrop⟩ := takes_next names rest s n hrest
    exact ⟨n + 1, by rw [List.append_assoc, htake], hdrop⟩
  | across s t rest q _ _ _ hlink _ => exact absurd hlink (hlinks _ t)

/-- Where there are no links, a path comes by the folders above it and by where it ends. -/
theorem passes_straight (d : Disk) (g : Ground) (path : String) (rest : List String) (q : Place)
    (hnames : ∀ s ∈ namesIn path, s ≠ "." ∧ s ≠ "..") (hlinks : ∀ r t, ¬ g.links r t)
    (h : d.Passes g path rest q) : ∃ n < (namesIn path).length,
      q = d.start path ++ (namesIn path).take (n + 1) ∧ rest = (namesIn path).drop (n + 1) := by
  obtain ⟨s, q, h, -, -⟩ := h
  obtain ⟨n, rfl, hrest⟩ := h.straight g _ _ _ q hnames hlinks
  obtain ⟨hn, htake, hdrop⟩ := takes_next _ rest s n hrest
  exact ⟨n, hn, by rw [List.append_assoc, htake], hdrop⟩

theorem not_meets_dot (g : Ground) (names rest : List String) (p q : Place)
    (hnames : names = [] ∨ names = ["."]) : ¬ Meets g names p rest q := by
  have hcomes : ∀ rest q, Comes g names p rest q → rest = [] ∨ rest = ["."] := by
    intro rest q h
    induction h with
    | start => exact hnames
    | here rest q _ ih =>
      rcases ih with ih | ih
      · cases ih
      · exact .inl (List.cons.inj ih).2
    | up rest q _ ih =>
      rcases ih with ih | ih
      · cases ih
      · exact .inl (List.cons.inj ih).2
    | down s rest q _ hdot _ _ ih =>
      rcases ih with ih | ih
      · cases ih
      · exact absurd (List.cons.inj ih).1 hdot
    | across s t rest q _ hdot _ _ ih =>
      rcases ih with ih | ih
      · cases ih
      · exact absurd (List.cons.inj ih).1 hdot
  rintro ⟨s, q, h, hdot, -⟩
  rcases hcomes _ q h with h | h
  · cases h
  · exact hdot (List.cons.inj h).1

theorem passes_split (d : Disk) (g : Ground) (path : String) (rest : List String) (q : Place)
    (h : d.Passes g (Path.split path).1 rest q) : ∃ more, d.Passes g path (rest ++ more) q := by
  rcases Path.namesIn_above path with hnone | ⟨hroot, more, hmore⟩
  · exact absurd h (not_meets_dot g _ rest _ q hnone)
  · refine ⟨more, ?_⟩
    have happend := h.append g _ more rest _ q
    rw [← hmore, start, hroot] at happend
    exact happend

/-- What is met on the way to the folder above is met on the way to the path. -/
theorem passes_lastName (d : Disk) (g : Ground) (path : String) (rest : List String) (q : Place)
    (h : d.Passes g (lastName path).1 rest q) : ∃ more, d.Passes g path (rest ++ more) q := by
  unfold lastName at h
  by_cases hname : (Path.split path).2 = ""
  · simp only [hname, if_true] at h
    obtain ⟨more, hmore⟩ := d.passes_split g _ rest q h
    obtain ⟨more', hmore'⟩ := d.passes_split g path _ q hmore
    rw [List.append_assoc] at hmore'
    exact ⟨_, hmore'⟩
  · simp only [hname, if_false] at h
    exact d.passes_split g path rest q h

section
variable (d d' : Disk) (names₀ : List String) (p₀ : Place)
  (hsame : ∀ rest q, Meets d.ground names₀ p₀ rest q → d'.at? q = d.at? q) (atEnd : Bool)
include hsame

theorem walk_unchanged (follow follow' : String → Place → List String → Except Refusal Found)
    (hfollow : ∀ t p rest,
      Comes d.ground names₀ p₀ (namesIn t ++ rest) (if Path.isRooted t then [] else p) →
      follow' t p rest = follow t p rest)
    (names : List String) (p : Place) (h : Comes d.ground names₀ p₀ names p) :
    d'.walk atEnd follow' names p = d.walk atEnd follow names p := by
  induction names generalizing p with
  | nil => rfl
  | cons s rest ih =>
    rw [walk, walk]
    by_cases hdot : s = "."
    · subst hdot
      rw [if_pos rfl, if_pos rfl]
      exact ih p (.here rest p h)
    by_cases hdots : s = ".."
    · subst hdots
      rw [if_neg hdot, if_neg hdot, if_pos rfl, if_pos rfl]
      exact ih _ (.up rest p h)
    rw [if_neg hdot, if_neg hdot, if_neg hdots, if_neg hdots,
      hsame rest _ (.intro s p h hdot hdots)]
    cases he : d.at? (p ++ [s]) with
    | none => rfl
    | some e =>
      cases e with
      | file bytes => rfl
      | folder => rw [ih _ (.down s rest p h hdot hdots (.inr he))]
      | link t =>
        have hlink := hfollow t p rest (.across s t rest p h hdot hdots he)
        simp only [hlink]

theorem through_unchanged (links : Nat) (names : List String) (p : Place)
    (h : Comes d.ground names₀ p₀ names p) :
    d'.through atEnd links names p = d.through atEnd links names p := by
  induction links generalizing names p with
  | zero => exact walk_unchanged d d' names₀ p₀ hsame atEnd _ _ (fun _ _ _ _ => rfl) names p h
  | succ links ih =>
    apply walk_unchanged d d' names₀ p₀ hsame atEnd _ _ _ names p h
    intro t p rest h
    exact ih _ _ h

end

section
variable (d d' : Disk) (path : String) (hwork : d'.workdir = d.workdir)
  (hsame : ∀ rest q, d.Passes d.ground path rest q → d'.at? q = d.at? q)
include hwork hsame

theorem find_unchanged (atEnd : Bool) : d'.find atEnd path = d.find atEnd path := by
  have hstart : d'.start path = d.start path := by
    rw [start, start, hwork]
  rw [find, find, hstart, through_unchanged d d' _ _ hsame atEnd maxLinks _ _ .start]

theorem resolve_unchanged (atEnd : Bool) : d'.resolve atEnd path = d.resolve atEnd path := by
  rw [resolve, resolve, find_unchanged d d' path hwork hsame]

theorem lookup_unchanged : entry? d' path = entry? d path := by
  unfold entry?
  rw [resolve_unchanged d d' path hwork hsame]

theorem isThere_unchanged : d'.isThere path = d.isThere path := by
  rw [isThere, isThere, lookup_unchanged d d' path hwork hsame]

theorem isFile_unchanged : d'.isFile path = d.isFile path := by
  rw [isFile, isFile, lookup_unchanged d d' path hwork hsame]

theorem isFolder_unchanged : d'.isFolder path = d.isFolder path := by
  rw [isFolder, isFolder, lookup_unchanged d d' path hwork hsame]

theorem readFile_unchanged : d'.readFile path = d.readFile path := by
  rw [readFile, readFile, resolve_unchanged d d' path hwork hsame]

end

/-- The last of the names is looked up in a folder, however long it is. -/
def EndsNamed (names : List String) : Prop :=
  ∃ z, names.getLast? = some z ∧ z ≠ "." ∧ z ≠ ".."

theorem EndsNamed.rest (s : String) (rest : List String) (h : EndsNamed (s :: rest))
    (hs : s = "." ∨ s = ".." ∨ rest ≠ []) : EndsNamed rest := by
  obtain ⟨z, hz, hdot, hdots⟩ := h
  refine ⟨z, ?_, hdot, hdots⟩
  cases rest with
  | nil =>
    cases hz
    rcases hs with hs | hs | hs
    · exact absurd hs hdot
    · exact absurd hs hdots
    · exact absurd rfl hs
  | cons r rest =>
    rw [List.getLast?_cons_cons] at hz
    exact hz

theorem EndsNamed.after (before names : List String) (h : EndsNamed names) :
    EndsNamed (before ++ names) := by
  obtain ⟨z, hz, hname⟩ := h
  exact ⟨z, by rw [List.getLast?_append, hz, Option.some_or], hname⟩

/-- Names that do not lead to a folder, or end with one that is not followed, lead to a place that is
met last. -/
theorem leads_met (d : Disk) (names₀ : List String) (p₀ : Place) (atEnd : Bool) (links : Nat)
    (names : List String) (p : Place) (f : Found) (h : Comes d.ground names₀ p₀ names p)
    (hend : (∃ q, f = .entry q .folder) → atEnd = false ∧ EndsNamed names)
    (hl : d.Leads atEnd links names p f) : ∃ q, Meets d.ground names₀ p₀ [] q ∧ f = d.landing q := by
  induction hl with
  | arrives links p =>
    obtain ⟨-, z, hz, -⟩ := hend ⟨p, rfl⟩
    cases hz
  | here links rest p f _ ih =>
    refine ih (.here rest p h) fun hf => ?_
    exact ⟨(hend hf).1, (hend hf).2.rest _ rest (.inl rfl)⟩
  | up links rest p f _ ih =>
    refine ih (.up rest p h) fun hf => ?_
    exact ⟨(hend hf).1, (hend hf).2.rest _ rest (.inr (.inl rfl))⟩
  | down links s rest p f hs hfolder hrest ih =>
    by_cases hlast : rest = []
    · subst hlast
      cases hrest
      exact ⟨_, .intro s p h hs.dot hs.dots, by rw [landing, hfolder]⟩
    · refine ih (.down s rest p h hs.dot hs.dots (.inr hfolder)) fun hf => ?_
      exact ⟨(hend hf).1, (hend hf).2.rest s rest (.inr (.inr hlast))⟩
  | stops links s p hs _ _ => exact ⟨_, .intro s p h hs.dot hs.dots, rfl⟩
  | across links s t rest p f hs hlink hmore _ ih =>
    refine ih (.across s t rest p h hs.dot hs.dots hlink) fun hf => ?_
    obtain ⟨hfalse, hnamed⟩ := hend hf
    -- a last link was followed, so links at the end are
    have hrest : rest ≠ [] := hmore.resolve_right (by rw [hfalse]; decide)
    exact ⟨hfalse, (hnamed.rest s rest (.inr (.inr hrest))).after (namesIn t) rest⟩

/-- What a path leads to is what the disk has at a place that is met last. -/
theorem find_met (d : Disk) (atEnd : Bool) (path : String) (f : Found)
    (hend : (∃ q, f = .entry q .folder) → atEnd = false ∧ EndsNamed (namesIn path))
    (hf : d.find atEnd path = .ok f) : ∃ q, d.Passes d.ground path [] q ∧ f = d.landing q := by
  obtain ⟨-, -, hl⟩ := (find_eq_ok_iff d atEnd path f).mp hf
  exact leads_met d _ _ atEnd maxLinks _ _ f .start hend hl

theorem find_met_noFolder (d : Disk) (atEnd : Bool) (path : String) (f : Found)
    (hfolder : ∀ q, f ≠ .entry q .folder) (hf : d.find atEnd path = .ok f) :
    ∃ q, d.Passes d.ground path [] q ∧ f = d.landing q := by
  apply find_met d atEnd path f _ hf
  rintro ⟨q, hq⟩
  exact absurd hq (hfolder q)

/-- A free name that a path leads to. -/
theorem find_vacant (d : Disk) (atEnd : Bool) (path : String) (p : Place)
    (hf : d.find atEnd path = .ok (.vacant p)) :
    d.Passes d.ground path [] p ∧ d.at? p = none := by
  obtain ⟨q, hq, hlanding⟩ := find_met_noFolder d atEnd path _ (by rintro r ⟨⟩) hf
  obtain ⟨rfl, hfree⟩ := landing_vacant d p q hlanding.symm
  exact ⟨hq, hfree⟩

end DocNavigation.Disk
