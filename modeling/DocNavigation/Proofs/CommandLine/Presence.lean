import DocNavigation.CommandLine.Invocation
import DocNavigation.Proofs.Json.Keys
import DocNavigation.Proofs.Result

/-!
Options on a command line. Reading the words by a grammar that has options only keeps, for each key
that was seen, a value of the kind that its option takes, and none for any other key.
-/

namespace DocNavigation.CommandLine

/-- The values that come of an option: a list is kept only once it has an item. -/
inductive Fits : Taking → Value → Prop
  | switch : Fits .switch .switch
  | text (s : String) : Fits .text (.text s)
  | choice (words : List String) (s : String) : Fits (.choice words) (.text s)
  | texts (items : List String) (h : items ≠ []) : Fits .texts (.texts items)
  | integer (n : Int) : Fits .integer (.integer n)

/-- What was read so far by a grammar with these options and no places. -/
structure Sane (options : List OptionSpec) (s : Progress) : Prop where
  places : s.places = []
  seen : ∀ key, key ∈ s.seen ↔ (Json.getKey? s.values key).isSome
  fits : ∀ o ∈ options, ∀ v, Json.getKey? s.values o.key = some v → Fits o.taking v

theorem Sane.start (options : List OptionSpec) : Sane options { places := [] } where
  places := rfl
  seen key := by simp [Json.getKey?]
  fits o _ v h := by cases h

theorem Sane.withExtras (options : List OptionSpec) (s : Progress) (extras : List String)
    (h : Sane options s) : Sane options { s with extras := extras } :=
  ⟨h.places, h.seen, h.fits⟩

theorem optionValue_fits (o : OptionSpec) (old : Option Value) (word : String) (v : Value)
    (htakes : o.taking.takesValue = true) (h : optionValue o old word = .ok v) : Fits o.taking v := by
  unfold optionValue at h
  cases htaking : o.taking with
  | help => simp [htaking, Taking.takesValue] at htakes
  | switch => simp [htaking, Taking.takesValue] at htakes
  | text =>
    rw [htaking] at h
    cases h
    exact .text word
  | choice words =>
    rw [htaking] at h
    obtain ⟨s, -, rfl⟩ := (Result.map_eq_ok_iff _ _ _).mp h
    exact .choice words s
  | texts =>
    rw [htaking] at h
    simp only at h
    split at h
    · cases h
      exact .texts _ (List.append_ne_nil_of_right_ne_nil _ (List.cons_ne_nil _ _))
    · cases h
      exact .texts _ (List.cons_ne_nil _ _)
  | integer =>
    rw [htaking] at h
    simp only at h
    split at h
    · cases h
      exact .integer _
    · cases h

section
variable (options : List OptionSpec) (hkeys : (options.map (·.key)).Nodup)
include hkeys

/-- Putting a value of its kind under the key of an option. -/
theorem Sane.put (o : OptionSpec) (ho : o ∈ options) (v : Value) (hfits : Fits o.taking v)
    (s : Progress) (hs : Sane options s) :
    Sane options { s with values := Json.put s.values o.key v, seen := o.key :: s.seen } := by
  refine ⟨hs.places, fun key => ?_, fun o' ho' v' hv' => ?_⟩
  · rw [Json.getKey?_put, List.mem_cons, hs.seen key, eq_comm]
    by_cases hkey : o.key = key <;> simp [hkey]
  · rw [Json.getKey?_put] at hv'
    split at hv'
    case isTrue hkey =>
      cases hv'
      rw [← List.inj_on_of_nodup_map hkeys ho ho' hkey]
      exact hfits
    case isFalse => exact hs.fits o' ho' v' hv'

theorem takeOption_sane (o : OptionSpec) (ho : o ∈ options) (word : Option String)
    (s s' : Progress) (hs : Sane options s) (h : takeOption o word s = .ok s') : Sane options s' := by
  unfold takeOption at h
  split at h
  · cases h
  case h_2 hswitch =>
    cases h
    exact Sane.put options hkeys o ho .switch (hswitch ▸ .switch) s hs
  case h_3 w hhelp hswitch =>
    obtain ⟨v, hv, h⟩ := (Result.bind_eq_ok_iff _ _ _).mp h
    cases h
    have htakes : o.taking.takesValue = true := by
      cases htaking : o.taking with
      | help => exact absurd htaking hhelp
      | switch => exact absurd htaking hswitch
      | _ => rfl
    exact Sane.put options hkeys o ho v (optionValue_fits o _ w v htakes hv) s hs
  · cases h

theorem takeOption_all_sane (taken : List (OptionSpec × Option String))
    (htaken : ∀ t ∈ taken, t.1 ∈ options) (s s' : Progress) (hs : Sane options s)
    (h : taken.foldlM (fun s t => takeOption t.1 t.2 s) s = .ok s') : Sane options s' := by
  induction taken generalizing s with
  | nil =>
    cases h
    exact hs
  | cons t taken ih =>
    rw [List.forall_mem_cons] at htaken
    rw [List.foldlM_cons] at h
    obtain ⟨between, hfirst, h⟩ := (Result.bind_eq_ok_iff _ _ _).mp h
    exact ih htaken.2 between (takeOption_sane options hkeys t.1 htaken.1 t.2 s between hs hfirst) h

end

/-- An option that was found is one of the grammar. -/
def Match.Of (g : Grammar) (m : Match) : Prop :=
  ∀ o, m.option = some o → o ∈ g.options

/-- The options among the tokens are options of the grammar. -/
def AreOf (g : Grammar) (ts : List Token) : Prop :=
  ∀ t ∈ ts, ∀ m, t.2 = .option m → m.Of g

section
variable (g : Grammar)

theorem mem_of_spellings (s : String) (o : OptionSpec) (h : (s, o) ∈ g.spellings) :
    o ∈ g.options := by
  obtain ⟨o', ho', h⟩ := List.mem_flatMap.mp h
  obtain ⟨_, -, heq⟩ := List.mem_map.mp h
  cases heq
  exact ho'

theorem mem_of_option? (spelling : String) (o : OptionSpec) (h : g.option? spelling = some o) :
    o ∈ g.options := by
  obtain ⟨⟨s, o'⟩, hfind, rfl⟩ := Option.map_eq_some_iff.mp h
  exact mem_of_spellings g s o' (List.mem_of_find?_eq_some hfind)

theorem candidates_of (word : String) (m : Match) (h : m ∈ candidates g word) : m.Of g := by
  intro o ho
  unfold candidates at h
  simp only at h
  split at h
  · obtain ⟨t, hmem, rfl⟩ := List.mem_map.mp h
    cases ho
    exact mem_of_spellings g t.1 t.2 (List.mem_of_mem_filter hmem)
  · obtain ⟨t, hmem, h⟩ := List.mem_filterMap.mp h
    have ht : t.2 ∈ g.options := mem_of_spellings g t.1 t.2 hmem
    split at h
    · cases h
      cases ho
      exact ht
    · split at h
      · cases h
        cases ho
        exact ht
      · cases h

theorem unmatched_of (word : String) (m : Match) (h : unmatched g word = .ok (.option m)) :
    m.Of g := by
  unfold unmatched at h
  split at h
  case h_1 m' hcandidates =>
    cases h
    exact candidates_of g word m (hcandidates ▸ List.mem_singleton_self m)
  case h_2 =>
    split at h
    · cases h
    · cases h
      intro o ho
      cases ho
  case h_3 => cases h

theorem classify_of (word : String) (m : Match) (h : classify g word = .ok (.option m)) :
    m.Of g := by
  unfold classify at h
  split at h
  · cases h
  · split at h
    case h_1 o ho =>
      cases h
      intro o' ho'
      cases ho'
      exact mem_of_option? g word o ho
    case h_2 =>
      split at h
      · cases h
      · split at h
        · split at h
          case h_1 start _ _ _ o ho =>
            cases h
            intro o' ho'
            cases ho'
            exact mem_of_option? g _ o ho
          case h_2 => exact unmatched_of g word m h
        · exact unmatched_of g word m h

theorem tokens_of (words : List String) (ts : List Token) (h : tokens g words = .ok ts) :
    AreOf g ts := by
  induction words generalizing ts with
  | nil =>
    cases h
    exact nofun
  | cons word words ih =>
    rw [tokens] at h
    split at h
    · cases h
      intro t ht m hm
      rcases List.mem_cons.mp ht with rfl | ht
      · cases hm
      · obtain ⟨w, -, rfl⟩ := List.mem_map.mp ht
        cases hm
    · split at h
      · cases h
      · cases h
      case h_3 mark rest hmark hrest =>
        cases h
        intro t ht m hm
        rcases List.mem_cons.mp ht with rfl | ht
        · cases hm
          exact classify_of g word m hmark
        · exact ih rest hrest t ht m hm

/-- What one word stands for are options of the grammar, and the tokens after it are some of those that
there were. -/
theorem unfold_of (rest rest' : List Token) (fuel : Nat) (m : Match)
    (taken taken' : List (OptionSpec × Option String)) (left : List String) (hm : m.Of g)
    (htaken : ∀ t ∈ taken, t.1 ∈ g.options)
    (h : unfold g rest fuel m taken = .ok (taken', left, rest')) :
    (∀ t ∈ taken', t.1 ∈ g.options) ∧ rest' ⊆ rest := by
  induction fuel generalizing m taken with
  | zero =>
    cases h
    exact ⟨htaken, List.Subset.refl _⟩
  | succ fuel ih =>
    have hmore : ∀ o word, m.option = some o → ∀ t ∈ taken ++ [(o, word)], t.1 ∈ g.options :=
      fun o word ho => List.forall_mem_append.mpr ⟨htaken, List.forall_mem_singleton.mpr (hm o ho)⟩
    have hnext : ∀ o spelling equals attached s, g.option? s = some o →
        Match.Of g ⟨some o, spelling, equals, attached⟩ := by
      rintro o spelling equals attached s ho _ ⟨⟩
      exact mem_of_option? g s o ho
    unfold unfold at h
    split at h
    case h_1 =>
      cases h
      exact ⟨htaken, List.Subset.refl _⟩
    case h_2 o ho _ =>
      split at h
      · cases h
        exact ⟨hmore o none ho, List.Subset.refl _⟩
      · split at h
        case h_1 word rest =>
          cases h
          exact ⟨hmore o (some word) ho, List.subset_cons_self _ _⟩
        case h_2 => cases h
    case h_3 o value ho _ =>
      simp only at h
      split at h
      · cases h
        exact ⟨hmore o (some value) ho, List.Subset.refl _⟩
      · split at h
        · cases h
        · split at h
          · cases h
          · split at h
            · cases h
            · split at h
              · cases h
                exact ⟨hmore o none ho, List.Subset.refl _⟩
              -- another option is run together with this one
              all_goals exact ih _ _ (hnext _ _ _ _ _ ‹g.option? _ = some _›) (hmore o none ho) h

end

section
variable (g : Grammar) (hkeys : (g.options.map (·.key)).Nodup)
include hkeys

theorem takeOptions_sane (word : String) (m : Match) (rest rest' : List Token) (s s' : Progress)
    (hm : m.Of g) (hs : Sane g.options s) (h : takeOptions g word m rest s = .ok (rest', s')) :
    Sane g.options s' ∧ rest' ⊆ rest := by
  obtain ⟨⟨taken, left, after⟩, hunfold, h⟩ := (Result.bind_eq_ok_iff _ _ _).mp h
  obtain ⟨between, htaken, h⟩ := (Result.bind_eq_ok_iff _ _ _).mp h
  cases h
  obtain ⟨hof, hrest⟩ := unfold_of g rest _ _ m [] taken left hm nofun hunfold
  exact ⟨.withExtras _ _ _ (takeOption_all_sane g.options hkeys taken hof s between hs htaken), hrest⟩

theorem run_sane (fuel : Nat) (ts : List Token) (s s' : Progress) (hts : AreOf g ts)
    (hs : Sane g.options s) (h : run g fuel ts s = .ok s') : Sane g.options s' := by
  induction fuel generalizing ts s with
  | zero =>
    cases h
    exact hs
  | succ fuel ih =>
    unfold run at h
    split at h
    case h_1 word m rest =>
      obtain ⟨⟨rest', between⟩, htake, h⟩ := (Result.bind_eq_ok_iff _ _ _).mp h
      obtain ⟨hbetween, hrest⟩ := takeOptions_sane g hkeys word m rest rest' s between
        (hts _ (List.mem_cons_self ..) m rfl) hs htake
      exact ih rest' between (fun t ht => hts t (List.mem_cons_of_mem _ (hrest ht))) hbetween h
    case h_2 =>
      -- without places nothing is taken here but what is left over
      rw [hs.places, takePlaces] at h
      obtain ⟨⟨rest, between⟩, htake, h⟩ := (Result.bind_eq_ok_iff _ _ _).mp h
      cases htake
      have hbetween : Sane g.options { s with places := [] } := ⟨rfl, hs.seen, hs.fits⟩
      simp only [Nat.lt_irrefl, if_false] at h
      split at h
      · exact ih _ _ (fun t ht => hts t (List.mem_of_mem_drop ht)) (.withExtras _ _ _ hbetween) h
      · cases h
        exact .withExtras _ _ _ hbetween

theorem parse_sane (words : List String) (s : Progress) (hplaces : g.places = [])
    (h : parse g words = .ok s) : Sane g.options s := by
  obtain ⟨ts, hts, h⟩ := (Result.bind_eq_ok_iff _ _ _).mp h
  obtain ⟨s', hrun, h⟩ := (Result.bind_eq_ok_iff _ _ _).mp h
  have hs : s = s' := by
    split at h
    · cases h
      rfl
    · cases h
  rw [hplaces] at hrun
  rw [hs]
  exact run_sane g hkeys _ ts _ s' (tokens_of g words ts ((Result.mapError_eq_ok_iff _ _ _).mp hts))
    (.start _) hrun

end

end DocNavigation.CommandLine
