import DocNavigation.Pattern.Node

/-!
Matching. From a place in the text a pattern has a list of places where a match can end, the
preferred one first; searching asks whether some place has any.
-/

namespace DocNavigation.Pattern

/-- A place in a text, with the characters before it in reverse order and the captured groups. -/
structure Spot where
  before : List Char
  after : List Char
  groups : List (Nat × List Char) := []
deriving DecidableEq, Repr

namespace Spot

/-- Places of one text are equal if as much is left and the groups agree. -/
def alike (s t : Spot) : Bool :=
  s.after.length = t.after.length && s.groups = t.groups

def advance (s : Spot) : (count : Nat) → Spot
  | 0 => s
  | n + 1 =>
    match s.after with
    | [] => s
    | c :: rest => advance { s with before := c :: s.before, after := rest } n

def retreat? (s : Spot) : (count : Nat) → Option Spot
  | 0 => some s
  | n + 1 =>
    match s.before with
    | [] => none
    | c :: rest => retreat? { s with before := rest, after := c :: s.after } n

def capture (index : Nat) (start stop : Spot) : Spot :=
  let text := start.after.take (start.after.length - stop.after.length)
  { stop with groups := (index, text) :: stop.groups.filter (·.1 ≠ index) }

def captured? (s : Spot) (index : Nat) : Option (List Char) :=
  (s.groups.find? (·.1 = index)).map (·.2)

end Spot

/-- Keeps the first of several places that are alike. -/
def distinct (spots : List Spot) : List Spot :=
  (spots.foldl (fun kept s => if kept.any s.alike then kept else s :: kept) []).reverse

def Anchor.holds (s : Spot) : Anchor → Bool
  | .textStart => s.before.isEmpty
  | .textEnd => s.after.isEmpty
  | .lineStart => s.before.isEmpty || s.before.head? = some '\n'
  | .lineEnd => s.after.isEmpty || s.after.head? = some '\n'
  | .lastLineEnd => s.after.isEmpty || s.after = ['\n']
  | .boundary ascii negated =>
    let isWord := fun c => Category.word.contains ascii c
    if s.before.isEmpty && s.after.isEmpty then false
    else (s.before.head?.any isWord != s.after.head?.any isWord) != negated

/-- Whether two characters are equal, by their small forms if case is ignored. -/
def sameChar (fold ascii : Bool) (c d : Char) : Bool :=
  if !fold then c = d
  else if ascii then Text.asciiLower c.toNat = Text.asciiLower d.toNat
  else Text.lower c.toNat = Text.lower d.toNat

def matchText (fold ascii : Bool) (s : Spot) : List Char → Option Spot
  | [] => some s
  | c :: cs =>
    match s.after with
    | [] => none
    | d :: _ => if sameChar fold ascii c d then matchText fold ascii (s.advance 1) cs else none

/-- The places after a number of further matches. Once nothing changes, nothing will. -/
def iterate (step : Spot → List Spot) : (count : Nat) → List Spot → List Spot
  | 0, spots => spots
  | n + 1, spots =>
    let next := distinct (spots.flatMap step)
    if next = spots then spots else iterate step n next

/-- Where a walk has been, with how many more rounds were allowed there. -/
abbrev Visited := List (Spot × Option Nat)

/-- Further rounds from a place, as long as each moves on, at most `left` of them. Greedy walks list
a place after those reached from it, lazy ones before. A place visited again adds nothing. -/
def explore (step : Spot → List Spot) (isLazy : Bool) :
    (fuel : Nat) → (left : Option Nat) → Spot → Visited → Visited × List Spot
  | 0, _, s, visited => (visited, [s])
  | fuel + 1, left, s, visited =>
    if visited.any (fun (t, l) => s.alike t && l = left) then (visited, [])
    else if left = some 0 then (visited, [s])
    else
      let (visited, further) := (step s).foldl
        (fun (visited, found) t =>
          if t.after.length < s.after.length then
            let (visited, more) := explore step isLazy fuel (left.map (· - 1)) t visited
            (visited, found ++ more)
          else (visited, found ++ [t]))
        ((s, left) :: visited, [])
      (visited, if isLazy then s :: further else further ++ [s])

def repeated (step : Spot → List Spot) (least : Nat) (most : Option Nat) (greed : Greed)
    (s : Spot) : List Spot :=
  let (_, found) := (iterate step least [s]).foldl
    (fun (visited, found) t =>
      let (visited, more) :=
        explore step (greed = .lazy) (t.after.length + 1) (most.map (· - least)) t visited
      (visited, found ++ more))
    (([] : Visited), ([] : List Spot))
  let found := distinct found
  if greed = .possessive then found.take 1 else found

/-- The places where a match that starts here can end. -/
def Node.ends : Node → Spot → List Spot
  | .empty, s => [s]
  | .set cs, s =>
    match s.after with
    | [] => []
    | c :: _ => if cs.contains c then [s.advance 1] else []
  | .any newlines, s =>
    match s.after with
    | [] => []
    | c :: _ => if c ≠ '\n' ∨ newlines then [s.advance 1] else []
  | .anchor a, s => if a.holds s then [s] else []
  | .seq a b, s => distinct ((a.ends s).flatMap b.ends)
  | .alt a b, s => distinct (a.ends s ++ b.ends s)
  | .group none a, s => a.ends s
  | .group (some i) a, s => (a.ends s).map (s.capture i)
  | .rep least most greed a, s => repeated a.ends least most greed s
  | .backref i fold ascii _ _, s =>
    match s.captured? i with
    | none => []
    | some text => (matchText fold ascii s text).toList
  | .look true negated a, s =>
    match a.ends s with
    | [] => if negated then [s] else []
    | t :: _ => if negated then [] else [{ s with groups := t.groups }]
  | .look false negated a, s =>
    match (s.retreat? a.width.1).map a.ends with
    | some (t :: _) => if negated then [] else [{ s with groups := t.groups }]
    | _ => if negated then [s] else []
  | .given i yes no, s => if (s.captured? i).isSome then yes.ends s else no.ends s
  | .atomic a, s => (a.ends s).take 1

/-- Every place of a text, from its start on. -/
def spots : (before after : List Char) → List Spot
  | before, [] => [⟨before, [], []⟩]
  | before, c :: rest => ⟨before, c :: rest, []⟩ :: spots (c :: before) rest

/-- The pattern is found somewhere in the text. -/
def Node.found (n : Node) (text : String) : Bool :=
  (spots [] text.toList).any fun s => !(n.ends s).isEmpty

end DocNavigation.Pattern
