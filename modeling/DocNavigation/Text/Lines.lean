import DocNavigation.Text.Blank

/-!
Lines and fields of a text. A file read as text has every line ending turned into a line feed
before anything else looks at it.
-/

namespace DocNavigation.Text

/-- The pieces between the occurrences of a separator; there is always at least one. -/
def pieces (sep : Char) (cs : List Char) : List (List Char) :=
  cs.foldr
    (fun c acc =>
      if c = sep then [] :: acc
      else match acc with
        | [] => [[c]]
        | w :: ws => (c :: w) :: ws)
    [[]]

def split (sep : Char) (s : String) : List String :=
  (pieces sep s.toList).map String.ofList

def join (sep : String) (parts : List String) : String :=
  sep.intercalate parts

/-- A carriage return, alone or before a line feed, becomes a line feed. -/
def unifyNewlines (cs : List Char) : List Char :=
  (cs.foldr
    (fun c (acc, feedNext) =>
      if c = '\r' then (if feedNext then acc else '\n' :: acc, false)
      else (c :: acc, c = '\n'))
    (([] : List Char), false)).1

/-- The lines of a text with their line feeds, which only the last one may lack. -/
def lines (cs : List Char) : List (List Char) :=
  let ps := pieces '\n' cs
  ps.dropLast.map (· ++ ['\n']) ++ ps.getLast?.toList.filter (· ≠ [])

/-- The items of a comma separated list, trimmed, without the empty ones. -/
def commaSeparated (s : String) : List String :=
  ((split ',' s).map trim).filter (· ≠ "")

def startsWith (pre s : String) : Bool :=
  pre.toList.isPrefixOf s.toList

def endsWith (suffix s : String) : Bool :=
  suffix.toList.isSuffixOf s.toList

end DocNavigation.Text
