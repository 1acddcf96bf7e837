import DocNavigation.Registry

/-!
Merging registries. A unit that occurs in several sources keeps the place of its first occurrence
and is taken whole from the last source or the first, as the priority says.
-/

namespace DocNavigation

inductive Priority where
  | lastWins
  | firstWins
deriving DecidableEq, Repr

namespace Priority

def word : Priority → String
  | .lastWins => "last_wins"
  | .firstWins => "first_wins"

def all : List Priority := [.lastWins, .firstWins]

def ofString? (s : String) : Option Priority :=
  all.find? (·.word = s)

def choices : String :=
  "(" ++ ", ".intercalate (all.map fun p => Text.quoted p.word) ++ ")"

def unknownMessage (s : String) : String :=
  s!"Unknown merge priority '{s}'. Expected one of {choices}."

end Priority

structure MergeReport where
  sources : Nat
  units : Nat
  replaced : List String
deriving DecidableEq, Repr

namespace Merge

/-- The units chosen so far in first-seen order, and the names that had to be decided. -/
structure State where
  chosen : List Component := []
  replaced : List String := []
  notes : List Note := []
deriving DecidableEq, Repr

def replace (units : List Component) (u : Component) : List Component :=
  units.map fun v => if v.name = u.name then u else v

def meet (priority : Priority) (source : Nat) (s : State) (u : Component) : State :=
  if s.chosen.any (·.name = u.name) then
    let replaced := if s.replaced.contains u.name then s.replaced else s.replaced ++ [u.name]
    match priority with
    | .lastWins =>
      ⟨replace s.chosen u, replaced,
        s.notes ++ [.debug s!"Merger: Unit '{u.name}' replaced by source #{source}."]⟩
    | .firstWins =>
      ⟨s.chosen, replaced,
        s.notes ++ [.debug s!"Merger: Unit '{u.name}' from source #{source} ignored."]⟩
  else { s with chosen := s.chosen ++ [u] }

def meetSource (priority : Priority) (s : State) (source : Registry × Nat) : State :=
  source.1.units.foldl (meet priority source.2) s

def run (sources : List Registry) (priority : Priority) : State :=
  (sources.zipIdx 1).foldl (meetSource priority) {}

end Merge

structure Merged where
  registry : Registry
  report : MergeReport
  notes : List Note
deriving DecidableEq, Repr

/-- The merged registry is frozen; its units were closed when their sources took them. -/
def merge (sources : List Registry) (priority : Priority) : Merged :=
  let s := Merge.run sources priority
  let registry : Registry := ⟨s.chosen.map Component.close, true⟩
  let report : MergeReport := ⟨sources.length, registry.size, s.replaced⟩
  ⟨registry, report,
    s.notes ++ registry.units.map Registry.registered ++
      [.info (s!"Merger: {report.sources} sources merged into {report.units} units "
        ++ s!"({s.replaced.length} conflicts resolved by {priority.word}).")]⟩

end DocNavigation
