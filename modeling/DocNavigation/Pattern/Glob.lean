import DocNavigation.Text.Lines

/-!
Globs spelled as regular expressions. A star matches anything, a question mark one character, and
brackets one of the characters or ranges within; the whole name has to match.
-/

namespace DocNavigation.Pattern.Glob

inductive Piece where
  | star
  | fixed (text : List Char)
deriving DecidableEq, Repr

def metaCharacters : List Char :=
  "()[]{}?*+-|^$\\.&~# \t\n\r\x0b\x0c".toList

/-- The character as a literal of a regular expression. -/
def escaped (c : Char) : List Char :=
  if c ∈ metaCharacters then ['\\', c] else [c]

/-- What the brackets enclose, after the opening one, and what follows them. A closing bracket that
comes first, or after the exclamation mark, is among the enclosed. -/
def enclosed? (cs : List Char) : Option (List Char × List Char) :=
  let (bang, cs) := match cs with
    | '!' :: cs => (['!'], cs)
    | cs => ([], cs)
  let (bracket, cs) := match cs with
    | ']' :: cs => ([']'], cs)
    | cs => ([], cs)
  match cs.span (· ≠ ']') with
  | (inner, ']' :: rest) => some (bang ++ bracket ++ inner, rest)
  | _ => none

/-- Cuts the enclosed text at the hyphens that make ranges. A hyphen counts only if at least `skip`
characters come before it in its part. -/
def rangeParts : List Char → (skip : Nat) → (part : List Char) → List (List Char)
  | [], _, part => [part.reverse]
  | c :: cs, skip + 1, part => rangeParts cs skip (c :: part)
  | c :: cs, 0, part =>
    if c = '-' then part.reverse :: rangeParts cs 2 [] else rangeParts cs 0 (c :: part)

/-- An empty last part means that the enclosed text ends in a hyphen. -/
def joinLast : List (List Char) → List (List Char)
  | [] => []
  | [part, []] => [part ++ ['-']]
  | part :: parts => part :: joinLast parts

/-- Removes ranges whose first end is above the second, from the last to the first. -/
def dropEmptyRanges (parts : List (List Char)) : List (List Char) :=
  parts.foldr
    (fun part acc =>
      match acc, part.getLast?, (acc.head?.bind (·.head?)) with
      | next :: rest, some hi, some lo =>
        if lo < hi then (part.dropLast ++ next.drop 1) :: rest else part :: acc
      | _, _, _ => part :: acc)
    []

def escapedIn (specials cs : List Char) : List Char :=
  cs.flatMap fun c => if c ∈ specials then ['\\', c] else [c]

/-- Hyphens within parts and the signs of set operations lose their meaning. -/
def setText (stuff : List Char) : List Char :=
  if '-' ∈ stuff then
    let parts := dropEmptyRanges
      (joinLast (rangeParts stuff (if stuff.head? = some '!' then 2 else 1) []))
    List.intercalate ['-'] (parts.map (escapedIn ['\\', '-', '&', '~', '|']))
  else escapedIn ['\\', '&', '~', '|'] stuff

def bracketed (stuff : List Char) : List Char :=
  match setText stuff with
  | [] => "(?!)".toList
  | ['!'] => ['.']
  | '!' :: rest => '[' :: '^' :: rest ++ [']']
  | c :: rest =>
    if c = '^' ∨ c = '[' then '[' :: '\\' :: c :: rest ++ [']'] else '[' :: c :: rest ++ [']']

/-- Stars in a row are one star. -/
def pieces : (fuel : Nat) → List Char → List Piece
  | 0, _ => []
  | _ + 1, [] => []
  | fuel + 1, c :: cs =>
    if c = '*' then .star :: pieces fuel (cs.dropWhile (· = '*'))
    else if c = '?' then .fixed ['.'] :: pieces fuel cs
    else if c = '[' then
      match enclosed? cs with
      | some (stuff, rest) => .fixed (bracketed stuff) :: pieces fuel rest
      | none => .fixed ['\\', '['] :: pieces fuel cs
    else .fixed (escaped c) :: pieces fuel cs

def fixedText : List Piece → List Char
  | .fixed t :: ps => t ++ fixedText ps
  | _ => []

def afterFixed : List Piece → List Piece
  | .fixed _ :: ps => afterFixed ps
  | ps => ps

/-- What follows a star: an inner stretch is matched as early as possible and for good. -/
def starred : (fuel : Nat) → List Piece → List Char
  | fuel + 1, .star :: ps =>
    let fixed := fixedText ps
    match afterFixed ps with
    | [] => ['.', '*'] ++ fixed
    | rest => "(?>.*?".toList ++ fixed ++ [')'] ++ starred fuel rest
  | _, _ => []

/-- A regular expression for the names that a glob matches. -/
def toPattern (glob : String) : String :=
  let ps := pieces glob.length glob.toList
  String.ofList
    ("(?s:".toList ++ fixedText ps ++ starred ps.length (afterFixed ps) ++ ")\\Z".toList)

end DocNavigation.Pattern.Glob
