import DocNavigation.Component
import DocNavigation.Proofs.Catalog.Json
import DocNavigation.Proofs.Named
import DocNavigation.Proofs.Tree.Json

/-!
Units in lists without repeated names, and units that are closed. Closing changes seals only.
-/

namespace DocNavigation

namespace Tree

mutual

theorem withSeal_withSeal (a b : Bool) : (t : Tree) → (t.withSeal a).withSeal b = t.withSeal b
  | .node n s ds fs => by rw [withSeal, withSeal, withSeal, withSealAll_withSealAll a b ds]

theorem withSealAll_withSealAll (a b : Bool) : (ts : List Tree) →
    withSealAll b (withSealAll a ts) = withSealAll b ts
  | [] => rfl
  | t :: ts => by
    rw [withSealAll, withSealAll, withSealAll, withSeal_withSeal a b t,
      withSealAll_withSealAll a b ts]

end

mutual

theorem toJson_withSeal (a : Bool) : (t : Tree) → (t.withSeal a).toJson = t.toJson
  | .node n s ds fs => by rw [withSeal, toJson, toJson, toJsonAll_withSealAll a ds]

theorem toJsonAll_withSealAll (a : Bool) : (ts : List Tree) →
    toJsonAll (withSealAll a ts) = toJsonAll ts
  | [] => rfl
  | t :: ts => by rw [withSealAll, toJsonAll, toJsonAll, toJson_withSeal a t, toJsonAll_withSealAll a ts]

end

theorem same_withSeal (a : Bool) (t : Tree) : (t.withSeal a).same t = true := by
  simp [same, copy, withSeal_withSeal]

end Tree

namespace Component

theorem close_close (u : Component) : u.close.close = u.close := by
  simp [close, Tree.close, Catalog.close, Tree.withSeal_withSeal]

theorem close_same (u : Component) : u.close.same u = true := by
  simp [close, same, Tree.close, Tree.same_withSeal, Catalog.same, Catalog.close]

theorem isSealed_close (u : Component) : u.close.isSealed = true := by
  cases htree : u.tree with
  | node n s ds fs =>
    simp [close, isSealed, htree, Tree.close, Tree.withSeal, Tree.isSealed, Catalog.close]

theorem toJson_close (u : Component) : u.close.toJson = u.toJson := by
  simp [close, toJson, Tree.close, Tree.toJson_withSeal, Catalog.close, Catalog.toJson,
    Catalog.toFields]

theorem map_name_close (units : List Component) :
    (units.map close).map (·.name) = units.map (·.name) := by
  rw [List.map_map]
  rfl

theorem find?_map_close (units : List Component) (n : String) :
    (units.map close).find? (·.name = n) = (units.find? (·.name = n)).map close := by
  rw [List.find?_map]
  rfl

theorem find?_eq_some_iff (units : List Component) (h : (units.map (·.name)).Nodup) (n : String)
    (u : Component) : units.find? (·.name = n) = some u ↔ u ∈ units ∧ u.name = n :=
  Named.find?_eq_some_iff Component.name units h n u

/-- Units with distinct names are told by their names in order and by the unit of each name. -/
theorem ext_of_names (us vs : List Component) (h : (us.map (·.name)).Nodup)
    (hnames : us.map (·.name) = vs.map (·.name))
    (hfind : ∀ n, us.find? (·.name = n) = vs.find? (·.name = n)) : us = vs := by
  induction us generalizing vs with
  | nil => exact (List.map_eq_nil_iff.mp hnames.symm).symm
  | cons u us ih =>
    cases vs with
    | nil => cases hnames
    | cons v vs =>
      obtain ⟨hname, hrest⟩ := List.cons.inj hnames
      rw [List.map_cons, List.nodup_cons] at h
      have hname : u.name = v.name := hname
      have hu : u = v := by
        have hfirst := hfind u.name
        rw [List.find?_cons, List.find?_cons, ← hname] at hfirst
        simpa using hfirst
      subst hu
      refine congrArg (u :: ·) (ih vs h.2 hrest fun n => ?_)
      by_cases hn : u.name = n
      · have hnone : ∀ ws : List Component, ws.map (·.name) = us.map (·.name) →
            ws.find? (·.name = n) = none := by
          intro ws hws
          rw [List.find?_eq_none]
          intro w hw hwn
          have hmem : w.name ∈ us.map (·.name) := hws ▸ List.mem_map_of_mem hw
          exact h.1 (hn.trans (of_decide_eq_true hwn).symm ▸ hmem)
        rw [hnone us rfl, hnone vs hrest.symm]
      · have hlater := hfind n
        simpa [hn] using hlater

/-- Assembled by the operations under a name that is a segment. -/
structure Built (u : Component) : Prop where
  name : Name.isSegment u.name = true
  tree : u.tree.Built
  catalog : u.catalog.Built

structure WellFormed (u : Component) : Prop where
  name : Name.isSegment u.name = true
  tree : u.tree.WellFormed
  catalog : u.catalog.WellFormed

theorem Built.wellFormed (u : Component) (h : u.Built) : u.WellFormed :=
  ⟨h.name, Tree.Built.wellFormed u.tree h.tree, Catalog.Built.wellFormed u.catalog h.catalog⟩

theorem Built.close (u : Component) (h : u.Built) : u.close.Built :=
  ⟨h.name, Tree.Built.close u.tree h.tree, .close u.catalog h.catalog⟩

end Component

end DocNavigation
