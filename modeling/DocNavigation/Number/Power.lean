/-!
Powers of two and of ten, and sums.
-/

namespace DocNavigation.Number

def twoTo (n : Nat) : Nat :=
  Nat.pow 2 n

def tenTo (n : Nat) : Nat :=
  Nat.pow 10 n

def total : List Nat → Nat
  | [] => 0
  | n :: ns => n + total ns

end DocNavigation.Number
