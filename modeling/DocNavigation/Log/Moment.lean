/-!
Moments on the clock and the calendar, and how a line tells them.
-/

namespace DocNavigation

structure Moment where
  year : Nat := 1970
  month : Nat := 1
  day : Nat := 1
  hour : Nat := 0
  minute : Nat := 0
  second : Nat := 0
  millisecond : Nat := 0
deriving DecidableEq, Repr

namespace Moment

/-- The year, month and day after so many days since 1970 began. Years are counted from March, so
that a leap day ends its year, in spans of 400 years. -/
def dateOfDays (days : Nat) : Nat × Nat × Nat :=
  let shifted := days + 719468
  let span := shifted % 146097
  let year := (span - span / 1460 + span / 36524 - span / 146096) / 365
  let day := span - (365 * year + year / 4 - year / 100)
  let month := (5 * day + 2) / 153
  let fromMarch := shifted / 146097 * 400 + year
  let date := day - (153 * month + 2) / 5 + 1
  if month < 10 then (fromMarch, month + 3, date) else (fromMarch + 1, month - 9, date)

def ofSeconds (seconds millisecond : Nat) : Moment :=
  let (year, month, day) := dateOfDays (seconds / 86400)
  ⟨year, month, day, seconds / 3600 % 24, seconds / 60 % 60, seconds % 60, millisecond⟩

/-- The digits of a number, with zeros in front up to a width. -/
def digits (width n : Nat) : List Char :=
  let shown := (toString n).toList
  List.replicate (width - shown.length) '0' ++ shown

def part? (m : Moment) : Char → Option (List Char)
  | 'Y' => some (digits 1 m.year)
  | 'm' => some (digits 2 m.month)
  | 'd' => some (digits 2 m.day)
  | 'H' => some (digits 2 m.hour)
  | 'M' => some (digits 2 m.minute)
  | 'S' => some (digits 2 m.second)
  | '%' => some ['%']
  | _ => none

/-- Replaces the parts that a percent sign announces; what it announces otherwise stays. -/
def fill (m : Moment) : List Char → List Char
  | '%' :: c :: rest =>
    match m.part? c with
    | some cs => cs ++ m.fill rest
    | none => '%' :: c :: m.fill rest
  | c :: rest => c :: m.fill rest
  | [] => []

def usualLayout : String := "%Y-%m-%d %H:%M:%S"

/-- Without a layout the milliseconds are told too. -/
def shown (m : Moment) (layout : String) : String :=
  if layout = "" then
    String.ofList (m.fill usualLayout.toList ++ ',' :: digits 3 m.millisecond)
  else String.ofList (m.fill layout.toList)

end Moment

end DocNavigation
