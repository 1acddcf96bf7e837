import DocNavigation.Text.Case
import DocNavigation.Text.Lines

/-!
File paths as text: joining, cutting at the last slash, extensions, and the normal form without
relative markers.
-/

namespace DocNavigation.Path

def isRooted (p : String) : Bool :=
  Text.startsWith "/" p

/-- A rooted second path stands alone. -/
def join (a b : String) : String :=
  if isRooted b || a = "" then b
  else if Text.endsWith "/" a then a ++ b
  else a ++ "/" ++ b

/-- The text up to the last slash, that slash included, and the text after it. -/
def cutLast (cs : List Char) : List Char × List Char :=
  let back := cs.reverse
  ((back.dropWhile (· ≠ '/')).reverse, (back.takeWhile (· ≠ '/')).reverse)

def dropSlashes (cs : List Char) : List Char :=
  (cs.reverse.dropWhile (· = '/')).reverse

/-- The folder part and the last name. A folder part of nothing but slashes keeps them. -/
def split (p : String) : String × String :=
  let (folder, name) := cutLast p.toList
  let folder := if folder.all (· = '/') then folder else dropSlashes folder
  (String.ofList folder, String.ofList name)

def folder (p : String) : String :=
  (split p).1

/-- The last dot of the name and what follows it. Dots that begin the name do not count. -/
def extension (p : String) : String :=
  let name := (cutLast p.toList).2
  let tail := (name.reverse.takeWhile (· ≠ '.')).reverse
  let stem := (name.take (name.length - tail.length)).dropLast
  if '.' ∈ name ∧ stem.any (· ≠ '.') then String.ofList ('.' :: tail) else ""

/-- Two leading slashes are kept apart from one; more count as one. -/
def leadingSlashes (cs : List Char) : Nat :=
  match (cs.takeWhile (· = '/')).length with
  | 0 => 0
  | 2 => 2
  | _ => 1

/-- Resolves the relative markers by name alone; the names settled so far come last one first. Above
the root is the root, and a relative path keeps the markers that lead out of it. -/
def settle (rooted : Bool) : (done : List String) → List String → List String
  | done, [] => done.reverse
  | done, s :: rest =>
    if s = "" ∨ s = "." then settle rooted done rest
    else if s ≠ ".." then settle rooted (s :: done) rest
    else match done with
      | [] => settle rooted (if rooted then [] else [s]) rest
      | d :: above => settle rooted (if d = ".." then s :: done else above) rest

def normal (p : String) : String :=
  let slashes := leadingSlashes p.toList
  let names := settle (0 < slashes) [] (Text.split '/' p)
  let text := String.ofList (List.replicate slashes '/') ++ Text.join "/" names
  if text = "" then "." else text

/-- The normal form of a path that starts from a working folder unless it is rooted. -/
def absolute (workdir p : String) : String :=
  normal (if isRooted p then p else join workdir p)

/-- A web address rather than a path. -/
def isRemote (source : String) : Bool :=
  let s := Text.lowerAscii (Text.trim source)
  Text.startsWith "http://" s || Text.startsWith "https://" s

end DocNavigation.Path
