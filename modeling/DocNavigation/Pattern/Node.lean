import DocNavigation.Number.Power
import DocNavigation.Text.Blank
import DocNavigation.Text.Case
import DocNavigation.Text.Digit
import DocNavigation.Text.Letter

/-!
Patterns: the forms that a regular expression is made of, and the widths of what they match.
-/

namespace DocNavigation.Pattern

inductive Category where
  | digit
  | space
  | word
deriving DecidableEq, Repr

inductive SetItem where
  | code (n : Nat)
  | range (first last : Nat)
  | category (c : Category) (negated : Bool)
deriving DecidableEq, Repr

/-- A choice of characters. With `fold` capital and small letters are alike; with `ascii` letters,
digits and spaces are those of ASCII. -/
structure CharSet where
  items : List SetItem
  negated : Bool := false
  fold : Bool := false
  ascii : Bool := false
deriving DecidableEq, Repr

inductive Anchor where
  | textStart
  | textEnd
  | lineStart
  | lineEnd
  | lastLineEnd
  | boundary (ascii negated : Bool)
deriving DecidableEq, Repr

inductive Greed where
  | greedy
  | lazy
  | possessive
deriving DecidableEq, Repr

inductive Node where
  | empty
  | set (s : CharSet)
  | any (newlines : Bool)
  | anchor (a : Anchor)
  | seq (first second : Node)
  | alt (first second : Node)
  | group (index : Option Nat) (body : Node)
  | rep (least : Nat) (most : Option Nat) (greed : Greed) (body : Node)
  | backref (index : Nat) (fold ascii : Bool) (least most : Nat)
  | look (ahead negated : Bool) (body : Node)
  | given (index : Nat) (yes no : Node)
  | atomic (body : Node)
deriving DecidableEq, Repr

namespace Node

def isAnchor : Node → Bool
  | .anchor _ => true
  | _ => false

def isRepetition : Node → Bool
  | .rep .. => true
  | _ => false

/-- Widths beyond this one are not told apart. -/
def maxWidth : Nat := Number.twoTo 64

/-- The least and the greatest number of characters that a match can have. -/
def width : Node → Nat × Nat
  | .empty | .anchor _ | .look .. => (0, 0)
  | .set _ | .any _ => (1, 1)
  | .seq a b => (min (a.width.1 + b.width.1) maxWidth, min (a.width.2 + b.width.2) maxWidth)
  | .alt a b | .given _ a b => (min a.width.1 b.width.1, max a.width.2 b.width.2)
  | .group _ a | .atomic a => a.width
  | .rep least most _ a =>
    (min (a.width.1 * least) maxWidth,
      match most with
      | none => if a.width.2 = 0 then 0 else maxWidth
      | some n => min (a.width.2 * n) maxWidth)
  | .backref _ _ _ least most => (least, most)

/-- The greatest number of characters to look behind. -/
def maxBehind : Nat := 4294967295

/-- What looks behind has one width, and not too great a one. -/
def lookbehindsFixed : Node → Bool
  | .look false _ a =>
    a.width.1 = a.width.2 && decide (a.width.1 ≤ maxBehind) && a.lookbehindsFixed
  | .look true _ a | .group _ a | .atomic a | .rep _ _ _ a => a.lookbehindsFixed
  | .seq a b | .alt a b | .given _ a b => a.lookbehindsFixed && b.lookbehindsFixed
  | _ => true

def hasRepetition : Node → Bool
  | .rep .. => true
  | .look _ _ a | .group _ a | .atomic a => a.hasRepetition
  | .seq a b | .alt a b | .given _ a b => a.hasRepetition || b.hasRepetition
  | _ => false

end Node

def Category.contains (ascii : Bool) (c : Char) : Category → Bool
  | .digit => if ascii then c.isDigit else Text.isDecimal c
  | .space =>
    if ascii then c = ' ' || (0x09 ≤ c.toNat && c.toNat ≤ 0x0d) else Text.isBlank c
  | .word => if ascii then Text.isAsciiWordChar c else Text.isWordChar c

namespace SetItem

def contains (ascii : Bool) (c : Char) : SetItem → Bool
  | .code n => c.toNat = n
  | .range first last => first ≤ c.toNat && c.toNat ≤ last
  | .category k negated => k.contains ascii c != negated

def isCased (ascii : Bool) : SetItem → Bool
  | .code n => if ascii then Text.isAsciiCased n else Text.isCased n
  | .range first last =>
    if ascii then (first ≤ 90 && 65 ≤ last) || (first ≤ 122 && 97 ≤ last)
    else Text.rangeHasCased first last
  | .category .. => false

/-- Some form of the small letter `n`, or of a letter that counts as the same, is in the item. -/
def containsForm (ascii : Bool) (n : Nat) : SetItem → Bool
  | .code m =>
    if ascii then Text.asciiLower m = n
    else Text.lower m = n || (Text.alike (Text.lower m)).contains n
  | .range first last =>
    let forms :=
      if ascii then (if Text.asciiLower n = n then [n] else [])
        ++ (if 97 ≤ n ∧ n ≤ 122 then [n - 32] else [])
      else (n :: Text.alike n).flatMap Text.formsOf
    forms.any fun m => first ≤ m && m ≤ last
  | .category k negated => k.contains ascii (Char.ofNat n) != negated

end SetItem

/-- Case is ignored only where the set holds a letter with two forms. -/
def CharSet.contains (s : CharSet) (c : Char) : Bool :=
  let hit :=
    if s.fold && s.items.any (·.isCased s.ascii) then
      let n := if s.ascii then Text.asciiLower c.toNat else Text.lower c.toNat
      s.items.any (·.containsForm s.ascii n)
    else s.items.any (·.contains s.ascii c)
  hit != s.negated

end DocNavigation.Pattern
