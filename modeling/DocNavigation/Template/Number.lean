import DocNavigation.Number.Binary64
import DocNavigation.Number.Power
import DocNavigation.Template.Spec

/-!
Numbers laid out by a specification.
-/

namespace DocNavigation.Spec

/-- Digits from the last to the first, with a separator after every `size` of them, filled up with
zeros to a least length. -/
def grouped (size : Nat) (separator : Char) :
    (fuel : Nat) → (digits : List Char) → (least : Int) → List Char
  | 0, digits, _ => digits
  | fuel + 1, digits, least =>
    let count := min size (max (max digits.length least.toNat) 1)
    let group := digits.take count ++ List.replicate (count - digits.length) '0'
    let digits := digits.drop count
    let least := least - count
    if digits.isEmpty ∧ least ≤ 0 then group
    else group ++ separator :: grouped size separator fuel digits (least - 1)

def groupSize (s : Spec) : Nat :=
  if s.code.any ("boxX".toList.contains ·) then 4 else 3

def signText (s : Spec) (negative : Bool) : List Char :=
  if negative then ['-']
  else match s.sign with
    | some '+' => ['+']
    | some ' ' => [' ']
    | _ => []

/-- Lays out a number: a sign and prefix, whole digits, and what follows them. -/
def number (s : Spec) (negative : Bool) (mark digits rest : List Char) : String :=
  let front := s.signText negative ++ mark
  let least : Int :=
    if s.fill = '0' ∧ s.align = .afterSign then
      (s.width.getD 0 : Int) - (front.length + rest.length)
    else 0
  let digits := match s.separator with
    | none => digits
    | some c =>
      if digits.isEmpty then []
      else (grouped s.groupSize c (digits.length + least.toNat + 1) digits.reverse least).reverse
  String.ofList (s.pad front (digits ++ rest))

def baseOf : Char → Option (Nat × List Char)
  | 'b' => some (2, ['0', 'b'])
  | 'o' => some (8, ['0', 'o'])
  | 'x' => some (16, ['0', 'x'])
  | 'X' => some (16, ['0', 'X'])
  | 'd' | 'n' => some (10, [])
  | _ => none

def charOf (s : Spec) (n : Int) : Except TemplateError String := do
  if s.sign.isSome then throw .signOfChar
  if s.alternate then throw .alternateChar
  if n < -(Number.twoTo 63 : Int) ∨ (Number.twoTo 63 : Int) ≤ n then throw .charTooLarge
  if n < 0 ∨ 0x10ffff < n then throw .charOutOfRange
  return s.number false [] [] [Char.ofNat n.toNat]

/-- The digits of a number. Only decimal ones are limited. -/
def digitsOf (base n : Nat) : Except TemplateError (List Char) :=
  let digits := Nat.toDigits base n
  if base = 10 ∧ Number.maxDigits < digits.length then .error .tooLong else .ok digits

def integer (s : Spec) (n : Int) : Except TemplateError String := do
  if s.precision.isSome then throw .precisionOfInteger
  if s.plainZero then throw (.negativeZero "integer")
  let code := s.code.getD 'd'
  if code = 'c' then s.charOf n
  else
    let (base, mark) := (baseOf code).getD (10, [])
    let digits ← digitsOf base n.natAbs
    let digits := if code = 'X' then digits.map Char.toUpper else digits
    return s.number (n < 0) (if s.alternate then mark else []) digits []

/-- A number ±digits · 10^-places, its digits before and after the point. -/
def fixed (num den places : Nat) : List Char × List Char :=
  let ds := Nat.toDigits 10 (Number.roundDivEven (num * Number.tenTo places) den)
  let ds := List.replicate (places + 1 - ds.length) '0' ++ ds
  (ds.take (ds.length - places), ds.drop (ds.length - places))

/-- The first `count` digits and the exponent of the first one. -/
def leading (num den count : Nat) : List Char × Int :=
  if num = 0 then (List.replicate count '0', 0)
  else
    let e := Number.Binary64.decade num den
    let scale : Int := e + 1 - count
    let n := if 0 ≤ scale then Number.roundDivEven num (den * Number.tenTo scale.toNat)
      else Number.roundDivEven (num * Number.tenTo (-scale).toNat) den
    let ds := Nat.toDigits 10 n
    if count < ds.length then (ds.take count, e + 1) else (ds, e)

def exponentText (mark : Char) (e : Int) : List Char :=
  mark :: (if e < 0 then '-' else '+') :: Number.Binary64.twoDigits e.natAbs

def pointText (alternate : Bool) (fraction : List Char) : List Char :=
  if fraction.isEmpty && !alternate then [] else '.' :: fraction

def dropZeros (cs : List Char) : List Char :=
  (cs.reverse.dropWhile (· = '0')).reverse

/-- As many digits as are wanted, positional unless the exponent is far out. -/
def general (s : Spec) (num den count : Nat) (mark : Char) (keepPoint : Bool) :
    List Char × List Char :=
  let (ds, e) := leading num den count
  let strip := fun cs => if s.alternate then cs else dropZeros cs
  if -4 ≤ e ∧ e < (if keepPoint then (count : Int) - 1 else count) then
    if e < 0 then
      (['0'], pointText s.alternate (strip (List.replicate (-e - 1).toNat '0' ++ ds)))
    else
      let fraction := strip (ds.drop (e.toNat + 1))
      let fraction := if fraction.isEmpty && keepPoint then ['0'] else fraction
      (ds.take (e.toNat + 1), pointText s.alternate fraction)
  else (ds.take 1, pointText s.alternate (strip (ds.drop 1)) ++ exponentText mark e)

/-- The digits of a fraction in the form that the code asks for, and what follows them. -/
def fractionText (s : Spec) (num den : Nat) : List Char × List Char :=
  let places := s.precision.getD 6
  let code := s.code.getD ' '
  if code = 'f' ∨ code = 'F' ∨ code = '%' then
    let (whole, fraction) := fixed num den places
    (whole, pointText s.alternate fraction ++ (if code = '%' then ['%'] else []))
  else if code = 'e' ∨ code = 'E' then
    let (ds, e) := leading num den (places + 1)
    (ds.take 1, pointText s.alternate (ds.drop 1) ++ exponentText code e)
  else general s num den (max places 1) (if code = 'G' then 'E' else 'e') (code = ' ')

/-- The shortest digits that read back, cut where the whole digits end. -/
def shortestText (alternate : Bool) (mantissa : Nat) (exponent : Int) : List Char × List Char :=
  let cs := if mantissa = 0 then ['0', '.', '0']
    else (Number.Binary64.shortest mantissa exponent).text
  let rest := cs.dropWhile Char.isDigit
  (cs.takeWhile Char.isDigit, if alternate ∧ '.' ∉ rest then '.' :: rest else rest)

def isZeroText (cs : List Char) : Bool :=
  (cs.takeWhile fun c => c ≠ 'e' ∧ c ≠ 'E').all fun c => !c.isDigit || c = '0'

def real (s : Spec) (x : Number.Binary64) : String :=
  let capital := s.code.any Char.isUpper
  let word := fun (t : String) => (if capital then t.map Char.toUpper else t).toList
    ++ (if s.code = some '%' then ['%'] else [])
  match x with
  | .nan => s.number false [] [] (word "nan")
  | .infinite negative => s.number negative [] [] (word "inf")
  | .finite negative m e =>
    let (num, den) := Number.Binary64.scaled m 1 (-e)
    let (whole, rest) :=
      if s.code.isNone ∧ s.precision.isNone then shortestText s.alternate m e
      else fractionText s num den
    let negative := negative && !(s.plainZero && isZeroText (whole ++ rest))
    s.number negative [] whole rest

/-- Percentages are of the value times a hundred, rounded to a double. -/
def percent (s : Spec) (x : Number.Binary64) : String :=
  match x with
  | .finite negative m e =>
    let (num, den) := Number.Binary64.scaled m 1 (-e)
    s.real (Number.Binary64.ofRatio negative (num * 100) den)
  | x => s.real x

def isRealCode (c : Char) : Bool :=
  "eEfFgG%".toList.contains c

def float (s : Spec) (x : Number.Binary64) : Except TemplateError String :=
  match s.code with
  | none => .ok (s.real x)
  | some c =>
    if c = '%' then .ok (s.percent x)
    else if isRealCode c ∨ c = 'n' then .ok (s.real x)
    else .error (.unknownCode c "float")

/-- A whole number; the codes of fractions turn it into a double first. -/
def whole (s : Spec) (n : Int) (kind : String) : Except TemplateError String :=
  match s.code with
  | none => s.integer n
  | some c =>
    if c = 'c' ∨ (baseOf c).isSome then s.integer n
    else if isRealCode c then
      match Number.Binary64.ofRatio (n < 0) n.natAbs 1 with
      | .infinite _ => .error .floatTooLarge
      | x => s.float x
    else .error (.unknownCode c kind)

end DocNavigation.Spec
