import DocNavigation.Disk.Write
import DocNavigation.Proofs.Result

/-!
Following paths. Where names lead is told step by step, and what each step keeps is kept on the whole
way. Where a path leads depends on the folders and links on the way only, and the last name of a path
is looked up in the folder that the rest of the path leads to.
-/

namespace DocNavigation.Disk

theorem find?_without (entries : List (Place × DiskEntry)) (p q : Place) (h : q ≠ p) :
    (entries.filter (·.1 ≠ p)).find? (·.1 = q) = entries.find? (·.1 = q) := by
  induction entries with
  | nil => rfl
  | cons x entries ih =>
    by_cases hx : x.1 = p
    · have hq : x.1 ≠ q := fun hxq => h (hxq.symm.trans hx)
      rw [List.filter_cons_of_neg (by simp [hx]), ih, List.find?_cons_of_neg (by simp [hq])]
    · rw [List.filter_cons_of_pos (by simp [hx]), List.find?_cons, List.find?_cons, ih]

theorem at?_put (d : Disk) (p q : Place) (e : DiskEntry) (hp : p ≠ []) :
    (d.put p e).at? q = if q = p then some e else d.at? q := by
  unfold at? put
  by_cases hqp : q = p
  · subst hqp
    simp [hp]
  · have hskip := find?_without d.entries p q hqp
    rw [if_neg hqp, List.find?_cons, hskip]
    simp [Ne.symm hqp]

theorem put_put (d : Disk) (p : Place) (e e' : DiskEntry) : (d.put p e).put p e' = d.put p e' := by
  simp [put, List.filter_filter]

theorem at?_erase (d : Disk) (p q : Place) (hp : p ≠ []) :
    (d.erase p).at? q = if q = p then none else d.at? q := by
  unfold at? erase
  by_cases hqp : q = p
  · subst hqp
    simp [hp]
  · rw [if_neg hqp, find?_without d.entries p q hqp]

/-- What is found at a place itself. -/
def landing (d : Disk) (p : Place) : Found :=
  match d.at? p with
  | none => .vacant p
  | some e => .entry p e

theorem landing_entry (d : Disk) (p q : Place) (e : DiskEntry) (h : d.landing p = .entry q e) :
    d.at? p = some e := by
  unfold landing at h
  split at h
  · cases h
  · next he =>
    cases h
    exact he

/-- No folder and no link of the first disk is missing on the second. -/
structure Keeps (d d' : Disk) : Prop where
  workdir : d'.workdir = d.workdir
  folders : ∀ p, d.at? p = some .folder → d'.at? p = some .folder
  links : ∀ p t, d.at? p = some (.link t) → d'.at? p = some (.link t)

/-- Where one place has changed, no folder and no link is missing if there was none at that place. -/
theorem keeps_of_others (d d' : Disk) (p : Place) (hworkdir : d'.workdir = d.workdir)
    (hothers : ∀ q, q ≠ p → d'.at? q = d.at? q) (hfolder : d.at? p ≠ some .folder)
    (hlink : ∀ t, d.at? p ≠ some (.link t)) : Keeps d d' := by
  have hkept : ∀ q e, d.at? p ≠ some e → d.at? q = some e → d'.at? q = some e := by
    intro q e hp hq
    rw [hothers]
    · exact hq
    · rintro rfl
      exact hp hq
  exact ⟨hworkdir, fun q => hkept q _ hfolder, fun q t => hkept q _ (hlink t)⟩

/-- A name that is looked up in a folder. -/
structure Looked (s : String) : Prop where
  dot : s ≠ "."
  dots : s ≠ ".."
  short : s.utf8ByteSize ≤ maxNameLength

/-- Where names lead from a place, through at most so many links. A link is followed if there are
names to go after it, or if links at the end are. -/
inductive Leads (d : Disk) (atEnd : Bool) : Nat → List String → Place → Found → Prop
  | arrives (links : Nat) (p : Place) : Leads d atEnd links [] p (.entry p .folder)
  | here (links : Nat) (rest : List String) (p : Place) (f : Found)
      (h : Leads d atEnd links rest p f) : Leads d atEnd links ("." :: rest) p f
  | up (links : Nat) (rest : List String) (p : Place) (f : Found)
      (h : Leads d atEnd links rest p.dropLast f) : Leads d atEnd links (".." :: rest) p f
  | down (links : Nat) (s : String) (rest : List String) (p : Place) (f : Found) (hs : Looked s)
      (hfolder : d.at? (p ++ [s]) = some .folder) (h : Leads d atEnd links rest (p ++ [s]) f) :
      Leads d atEnd links (s :: rest) p f
  | stops (links : Nat) (s : String) (p : Place) (hs : Looked s)
      (hfolder : d.at? (p ++ [s]) ≠ some .folder)
      (hlink : ∀ t, d.at? (p ++ [s]) = some (.link t) → atEnd = false) :
      Leads d atEnd links [s] p (d.landing (p ++ [s]))
  | across (links : Nat) (s t : String) (rest : List String) (p : Place) (f : Found) (hs : Looked s)
      (hlink : d.at? (p ++ [s]) = some (.link t)) (hmore : rest ≠ [] ∨ atEnd = true)
      (h : Leads d atEnd links (namesIn t ++ rest) (if Path.isRooted t then [] else p) f) :
      Leads d atEnd (links + 1) (s :: rest) p f

theorem goesOn_iff (rest : List String) (atEnd : Bool) :
    (rest.isEmpty && !atEnd) = false ↔ rest ≠ [] ∨ atEnd = true := by
  cases rest <;> cases atEnd <;> simp

section
variable (d : Disk) (atEnd : Bool)

/-- A walk leads on from a link if what follows the link does. -/
theorem leads_of_walk (links : Nat) (follow : String → Place → List String → Except Refusal Found)
    (hfollow : ∀ t p rest f, follow t p rest = .ok f → ∃ n, links = n + 1 ∧
      d.Leads atEnd n (namesIn t ++ rest) (if Path.isRooted t then [] else p) f)
    (names : List String) (p : Place) (f : Found) (hw : d.walk atEnd follow names p = .ok f) :
    d.Leads atEnd links names p f := by
  induction names generalizing p with
  | nil =>
    cases hw
    exact .arrives links p
  | cons s rest ih =>
    rw [walk] at hw
    by_cases hdot : s = "."
    · subst hdot
      rw [if_pos rfl] at hw
      exact .here links rest p f (ih p hw)
    by_cases hdots : s = ".."
    · subst hdots
      rw [if_neg hdot, if_pos rfl] at hw
      exact .up links rest p f (ih _ hw)
    by_cases hsize : maxNameLength < s.utf8ByteSize
    · rw [if_neg hdot, if_neg hdots, if_pos hsize] at hw
      cases hw
    have hs : Looked s := ⟨hdot, hdots, Nat.not_lt.mp hsize⟩
    rw [if_neg hdot, if_neg hdots, if_neg hsize] at hw
    have hlanding : rest = [] → f = d.landing (p ++ [s]) → d.at? (p ++ [s]) ≠ some .folder →
        (∀ t, d.at? (p ++ [s]) = some (.link t) → atEnd = false) →
        d.Leads atEnd links (s :: rest) p f := by
      rintro rfl rfl hfolder hlink
      exact .stops links s p hs hfolder hlink
    cases he : d.at? (p ++ [s]) with
    | none =>
      rw [he] at hw hlanding
      cases rest <;> cases hw
      exact hlanding rfl (by rw [landing, he]) nofun nofun
    | some e =>
      rw [he] at hw hlanding
      cases e with
      | folder => exact .down links s rest p f hs he (ih _ hw)
      | file bytes =>
        cases rest <;> cases hw
        exact hlanding rfl (by rw [landing, he]) nofun nofun
      | link t =>
        by_cases hmore : rest ≠ [] ∨ atEnd = true
        · simp only [(goesOn_iff rest atEnd).mpr hmore] at hw
          obtain ⟨n, rfl, hn⟩ := hfollow t p rest f hw
          exact .across n s t rest p f hs he hmore hn
        · rw [not_or, not_not, Bool.not_eq_true] at hmore
          obtain ⟨rfl, rfl⟩ := hmore
          cases hw
          exact hlanding rfl (by rw [landing, he]) nofun fun _ _ => rfl

variable (links : Nat) (rest : List String) (p : Place)

theorem through_nil : d.through atEnd links [] p = .ok (.entry p .folder) := by
  cases links <;> rfl

theorem through_here : d.through atEnd links ("." :: rest) p = d.through atEnd links rest p := by
  cases links <;> rfl

theorem through_up :
    d.through atEnd links (".." :: rest) p = d.through atEnd links rest p.dropLast := by
  cases links <;> rfl

section
variable (s : String) (hs : Looked s)
include hs

theorem through_down (hfolder : d.at? (p ++ [s]) = some .folder) :
    d.through atEnd links (s :: rest) p = d.through atEnd links rest (p ++ [s]) := by
  have hwalk : ∀ follow, d.walk atEnd follow (s :: rest) p = d.walk atEnd follow rest (p ++ [s]) := by
    intro follow
    rw [walk, if_neg hs.dot, if_neg hs.dots, if_neg (Nat.not_lt.mpr hs.short), hfolder]
  cases links <;> rw [through, hwalk]

theorem through_last (hlink : ∀ t, d.at? (p ++ [s]) = some (.link t) → atEnd = false) :
    d.through atEnd links [s] p = .ok (d.landing (p ++ [s])) := by
  have hwalk : ∀ follow, d.walk atEnd follow [s] p = .ok (d.landing (p ++ [s])) := by
    intro follow
    rw [walk, if_neg hs.dot, if_neg hs.dots, if_neg (Nat.not_lt.mpr hs.short), landing]
    cases he : d.at? (p ++ [s]) with
    | none => rfl
    | some e =>
      cases e with
      | file bytes => rfl
      | folder => rfl
      | link t =>
        rw [hlink t he]
        rfl
  cases links <;> rw [through, hwalk]

theorem through_across (t : String) (hlink : d.at? (p ++ [s]) = some (.link t))
    (hmore : rest ≠ [] ∨ atEnd = true) : d.through atEnd (links + 1) (s :: rest) p =
      d.through atEnd links (namesIn t ++ rest) (if Path.isRooted t then [] else p) := by
  have hgoes := (goesOn_iff rest atEnd).mpr hmore
  rw [through, walk, if_neg hs.dot, if_neg hs.dots, if_neg (Nat.not_lt.mpr hs.short), hlink]
  simp only [hgoes, Bool.false_eq_true, if_false]

end

end

section
variable (d : Disk) (atEnd : Bool)

/-- Following names finds what they lead to. -/
theorem through_eq_ok_iff (links : Nat) (names : List String) (p : Place) (f : Found) :
    d.through atEnd links names p = .ok f ↔ d.Leads atEnd links names p f := by
  constructor
  · intro hw
    induction links generalizing names p f with
    | zero =>
      apply leads_of_walk d atEnd 0 _ _ names p f hw
      intro t p rest f hf
      cases hf
    | succ links ih =>
      refine leads_of_walk d atEnd (links + 1) _ ?_ names p f hw
      exact fun t p rest f hf => ⟨links, rfl, ih _ _ f hf⟩
  · intro h
    induction h with
    | arrives links p => exact through_nil d atEnd links p
    | here links rest p f _ ih => exact (through_here d atEnd links rest p).trans ih
    | up links rest p f _ ih => exact (through_up d atEnd links rest p).trans ih
    | down links s rest p f hs hfolder _ ih =>
      exact (through_down d atEnd links rest p s hs hfolder).trans ih
    | stops links s p hs _ hlink => exact through_last d atEnd links p s hs hlink
    | across links s t rest p f hs hlink hmore _ ih =>
      exact (through_across d atEnd links rest p s hs t hlink hmore).trans ih

theorem find_eq_ok_iff (path : String) (f : Found) : d.find atEnd path = .ok f ↔
    path ≠ "" ∧ path.utf8ByteSize ≤ maxPathLength ∧
      d.Leads atEnd maxLinks (namesIn path) (d.start path) f := by
  rw [find, ← through_eq_ok_iff]
  by_cases hempty : path = ""
  · rw [if_pos hempty]
    exact ⟨nofun, fun h => absurd hempty h.1⟩
  by_cases hsize : maxPathLength < path.utf8ByteSize
  · rw [if_neg hempty, if_pos hsize]
    exact ⟨nofun, fun h => absurd hsize (Nat.not_lt.mpr h.2.1)⟩
  · rw [if_neg hempty, if_neg hsize]
    exact ⟨fun h => ⟨hempty, Nat.not_lt.mp hsize, h⟩, fun h => h.2.2⟩

end

/-- What became of a result: one that ended at a file or a free name is found at that place as it is
now, any other stays. -/
def Carried (d' : Disk) (f : Found) (r : Except Refusal Found) : Prop :=
  match f with
  | .entry p (.file _) => (∀ t, d'.at? p ≠ some (.link t)) → r = .ok (d'.landing p)
  | .vacant p => (∀ t, d'.at? p ≠ some (.link t)) → r = .ok (d'.landing p)
  | f => r = .ok f

section
variable (d d' : Disk) (h : Keeps d d') (atEnd : Bool)
include h

theorem leads_carried (links : Nat) (names : List String) (p : Place) (f : Found)
    (hl : d.Leads atEnd links names p f) : Carried d' f (d'.through atEnd links names p) := by
  induction hl with
  | arrives links p => exact through_nil d' atEnd links p
  | here links rest p f _ ih =>
    rw [through_here]
    exact ih
  | up links rest p f _ ih =>
    rw [through_up]
    exact ih
  | down links s rest p f hs hfolder _ ih =>
    rw [through_down d' atEnd links rest p s hs (h.folders _ hfolder)]
    exact ih
  | stops links s p hs hfolder hlink =>
    -- a path that ends here leads to whatever is here now
    have hnow : (∀ t, d'.at? (p ++ [s]) ≠ some (.link t)) →
        d'.through atEnd links [s] p = .ok (d'.landing (p ++ [s])) :=
      fun hno => through_last d' atEnd links p s hs fun t ht => absurd ht (hno t)
    rw [landing]
    cases he : d.at? (p ++ [s]) with
    | none => exact hnow
    | some e =>
      cases e with
      | folder => exact absurd he hfolder
      | file bytes => exact hnow
      | link t =>
        have hsame := through_last d' atEnd links p s hs fun _ _ => hlink t he
        rw [landing, h.links _ t he] at hsame
        exact hsame
  | across links s t rest p f hs hlink hmore _ ih =>
    rw [through_across d' atEnd links rest p s hs t (h.links _ t hlink) hmore]
    exact ih

theorem find_carried (path : String) (f : Found) (hf : d.find atEnd path = .ok f) :
    Carried d' f (d'.find atEnd path) := by
  obtain ⟨hempty, hsize, hl⟩ := (find_eq_ok_iff d atEnd path f).mp hf
  have hstart : d'.start path = d.start path := by
    rw [start, start, h.workdir]
  rw [find, if_neg hempty, if_neg (Nat.not_lt.mpr hsize), hstart]
  exact leads_carried d d' h atEnd maxLinks _ _ f hl

end

section
variable (d : Disk)

/-- Whether links at the end are followed matters only if there is one. -/
theorem leads_end (links : Nat) (names : List String) (p : Place) (f : Found)
    (hf : ∀ q t, f ≠ .entry q (.link t)) (h : d.Leads false links names p f) :
    d.Leads true links names p f := by
  induction h with
  | arrives links p => exact .arrives links p
  | here links rest p f _ ih => exact .here links rest p f (ih hf)
  | up links rest p f _ ih => exact .up links rest p f (ih hf)
  | down links s rest p f hs hfolder _ ih => exact .down links s rest p f hs hfolder (ih hf)
  | stops links s p hs hfolder _ =>
    refine .stops links s p hs hfolder fun t ht => ?_
    refine absurd ?_ (hf (p ++ [s]) t)
    rw [landing, ht]
  | across links s t rest p f hs hlink _ _ ih =>
    exact .across links s t rest p f hs hlink (.inr rfl) (ih hf)

theorem find_end (path : String) (f : Found) (hf : ∀ q t, f ≠ .entry q (.link t))
    (hw : d.find false path = .ok f) : d.find true path = .ok f := by
  obtain ⟨hempty, hsize, h⟩ := (find_eq_ok_iff d false path f).mp hw
  exact (find_eq_ok_iff d true path f).mpr ⟨hempty, hsize, leads_end d maxLinks _ _ f hf h⟩

/-- The result of looking up a name in a folder, unless a link there is followed. -/
structure EndsIn (atEnd : Bool) (q : Place) (s : String) (f : Found) : Prop where
  fits : s.utf8ByteSize ≤ maxNameLength
  lands : (∀ t, d.at? (q ++ [s]) ≠ some (.link t)) ∨ atEnd = false → f = d.landing (q ++ [s])

/-- The last name is looked up in the folder that the names before it lead to. -/
theorem leads_snoc (atEnd : Bool) (links : Nat) (s : String) (hdot : s ≠ ".") (hdots : s ≠ "..")
    (names : List String) (p : Place) (f : Found) (h : d.Leads atEnd links (names ++ [s]) p f) :
    ∃ q, d.Leads true links names p (.entry q .folder) ∧ d.EndsIn atEnd q s f := by
  generalize hall : names ++ [s] = all at h
  induction h generalizing names with
  | arrives links p => simp at hall
  | here links rest p f _ ih =>
    cases names with
    | nil => exact absurd (List.cons.inj hall).1 hdot
    | cons n names =>
      obtain ⟨rfl, rfl⟩ := List.cons.inj hall
      obtain ⟨q, hq, hend⟩ := ih names rfl
      exact ⟨q, .here links names p _ hq, hend⟩
  | up links rest p f _ ih =>
    cases names with
    | nil => exact absurd (List.cons.inj hall).1 hdots
    | cons n names =>
      obtain ⟨rfl, rfl⟩ := List.cons.inj hall
      obtain ⟨q, hq, hend⟩ := ih names rfl
      exact ⟨q, .up links names p _ hq, hend⟩
  | down links n rest p f hn hfolder h ih =>
    cases names with
    | nil =>
      obtain ⟨rfl, rfl⟩ := List.cons.inj hall
      cases h
      refine ⟨p, .arrives links p, hn.short, fun _ => ?_⟩
      rw [landing, hfolder]
    | cons n' names =>
      obtain ⟨rfl, rfl⟩ := List.cons.inj hall
      obtain ⟨q, hq, hend⟩ := ih names rfl
      exact ⟨q, .down links n' names p _ hn hfolder hq, hend⟩
  | stops links n p hn _ _ =>
    cases names with
    | nil =>
      obtain ⟨rfl, -⟩ := List.cons.inj hall
      exact ⟨p, .arrives links p, hn.short, fun _ => rfl⟩
    | cons n' names => simp at hall
  | across links n t rest p f hn hlink hmore _ ih =>
    cases names with
    | nil =>
      obtain ⟨rfl, rfl⟩ := List.cons.inj hall
      refine ⟨p, .arrives _ p, hn.short, ?_⟩
      rintro (hno | rfl)
      · exact absurd hlink (hno t)
      · simp at hmore
    | cons n' names =>
      obtain ⟨rfl, rfl⟩ := List.cons.inj hall
      -- the link is not the last name, so it is followed in any case
      obtain ⟨q, hq, hend⟩ := ih (namesIn t ++ names) (List.append_assoc ..)
      exact ⟨q, .across links n' t names p _ hn hlink (.inr rfl) hq, hend⟩

end

/-- The look at one name in a folder, where a link is not followed. -/
def nameAt (d : Disk) (q : Place) (s : String) : Except Refusal Found :=
  if maxNameLength < s.utf8ByteSize then .error .nameTooLong else .ok (d.landing (q ++ [s]))

section
variable (d : Disk) (s : String) (hdot : s ≠ ".") (hdots : s ≠ "..") (q : Place)
include hdot hdots

theorem through_name (links : Nat) : d.through false links [s] q = d.nameAt q s := by
  rw [nameAt]
  by_cases hsize : maxNameLength < s.utf8ByteSize
  · have hwalk : ∀ follow, d.walk false follow [s] q = .error .nameTooLong := by
      intro follow
      rw [walk, if_neg hdot, if_neg hdots, if_pos hsize]
    rw [if_pos hsize]
    cases links <;> rw [through, hwalk]
  · rw [if_neg hsize]
    exact through_last d false links q s ⟨hdot, hdots, Nat.not_lt.mp hsize⟩ fun _ _ => rfl

/-- One more name is looked up in the folder that the names before it lead to. -/
theorem leads_into (links : Nat) (names : List String) (p : Place)
    (h : d.Leads true links names p (.entry q .folder)) :
    d.through false links (names ++ [s]) p = d.nameAt q s := by
  generalize hf : Found.entry q .folder = f at h
  induction h with
  | arrives links p =>
    cases hf
    exact through_name d s hdot hdots q links
  | here links rest p f _ ih =>
    rw [List.cons_append, through_here]
    exact ih hf
  | up links rest p f _ ih =>
    rw [List.cons_append, through_up]
    exact ih hf
  | down links n rest p f hn hfolder _ ih =>
    rw [List.cons_append, through_down d false links _ p n hn hfolder]
    exact ih hf
  | stops links n p _ hfolder _ =>
    exact absurd (landing_entry d _ q .folder hf.symm) hfolder
  | across links n t rest p f hn hlink _ _ ih =>
    rw [List.cons_append, through_across d false links _ p n hn t hlink (.inl (by simp)),
      ← List.append_assoc]
    exact ih hf

end

end DocNavigation.Disk
