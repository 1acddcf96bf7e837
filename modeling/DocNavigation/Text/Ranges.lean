/-!
Membership in a list of closed ranges of code points, the form in which character properties are
tabulated.
-/

namespace DocNavigation.Text

def inRanges (ranges : List (Nat × Nat)) (n : Nat) : Bool :=
  ranges.any fun (first, last) => first ≤ n && n ≤ last

end DocNavigation.Text
