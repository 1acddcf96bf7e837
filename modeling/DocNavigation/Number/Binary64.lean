import DocNavigation.Number.Power

/-!
Double precision numbers as exact values: reading a decimal numeral rounds to the nearest double,
ties to the even mantissa, and writing gives the fewest digits that read back, the nearest such
numeral when several have that many.
-/

namespace DocNavigation.Number

/-- A finite double is ±mantissa · 2^exponent with a mantissa below 2^53 and an exponent of at least
-1074; the mantissa is at least 2^52 unless the exponent is -1074. -/
inductive Binary64 where
  | nan
  | infinite (negative : Bool)
  | finite (negative : Bool) (mantissa : Nat) (exponent : Int)
deriving DecidableEq, Repr

/-- The nearest integer to a quotient, a half going to the even neighbour. -/
def roundDivEven (num den : Nat) : Nat :=
  let q := num / den
  let r := num % den
  if 2 * r < den then q else if den < 2 * r then q + 1 else q + q % 2

namespace Binary64

def zero (negative : Bool) : Binary64 :=
  .finite negative 0 (-1074)

/-- The quotient of a fraction by 2^exponent, as a fraction. -/
def scaled (num den : Nat) (exponent : Int) : Nat × Nat :=
  if 0 ≤ exponent then (num, den * twoTo exponent.toNat)
  else (num * twoTo (-exponent).toNat, den)

def ofRatio (negative : Bool) (num den : Nat) : Binary64 :=
  if num = 0 then zero negative
  else
    let guess : Int := (num.log2 : Int) - den.log2 - 53
    let (n, d) := scaled num den guess
    let exponent := max (if twoTo 53 * d ≤ n then guess + 1 else guess) (-1074)
    let (n, d) := scaled num den exponent
    let m := roundDivEven n d
    let (m, exponent) := if m = twoTo 53 then (twoTo 52, exponent + 1) else (m, exponent)
    if 971 < exponent then .infinite negative else .finite negative m exponent

/-- The double nearest to ±digits · 10^scale. The two bounds keep the powers of ten small: outside
of them the result is an infinity or a zero anyway. -/
def ofDecimal (negative : Bool) (digits : Nat) (scale : Int) : Binary64 :=
  let magnitude : Int := scale + (Nat.toDigits 10 digits).length
  if digits = 0 then zero negative
  else if 400 < magnitude then .infinite negative
  else if magnitude < -400 then zero negative
  else if 0 ≤ scale then ofRatio negative (digits * tenTo scale.toNat) 1
  else ofRatio negative digits (tenTo (-scale).toNat)

/-- The exponent p with 10^p ≤ num/den < 10^(p+1), searched upwards from a lower bound. -/
def decadeFrom (num den : Nat) : (fuel : Nat) → Int → Int
  | 0, p => p
  | fuel + 1, p =>
    let reached :=
      if 0 ≤ p + 1 then tenTo (p + 1).toNat * den ≤ num
      else den ≤ num * tenTo (-(p + 1)).toNat
    if reached then decadeFrom num den fuel (p + 1) else p

def decade (num den : Nat) : Int :=
  decadeFrom num den 6 (((num.log2 : Int) - den.log2) * 30103 / 100000 - 2)

/-- A positive numeral digits · 10^scale. -/
structure Numeral where
  digits : Nat
  scale : Int
deriving DecidableEq, Repr

/-- The real numbers that round to a double, as multiples of a quarter of its last place: the value
itself is `4 * mantissa`. -/
structure Basin where
  low : Nat
  high : Nat
  closed : Bool

def basin (mantissa : Nat) (exponent : Int) : Basin where
  low := if mantissa = twoTo 52 ∧ -1074 < exponent then 4 * mantissa - 1 else 4 * mantissa - 2
  high := 4 * mantissa + 2
  closed := mantissa % 2 = 0

/-- The point d · 10^scale lies in the basin, whose unit is the fraction `unit`. -/
def Basin.contains (b : Basin) (unit : Nat × Nat) (d : Nat) (scale : Int) : Bool :=
  let (x, y) := if 0 ≤ scale then (d * tenTo scale.toNat, 1) else (d, tenTo (-scale).toNat)
  let point := x * unit.2
  let low := b.low * unit.1 * y
  let high := b.high * unit.1 * y
  if b.closed then low ≤ point && point ≤ high else low < point && point < high

/-- Tries grids of more and more digits: on each, the two neighbours of the value are the only
candidates, and the nearer one wins if both read back. -/
def shortestFrom (b : Basin) (value unit : Nat × Nat) (top : Int) :
    (fuel digits : Nat) → Option Numeral
  | 0, _ => none
  | fuel + 1, digits =>
    let scale : Int := top + 1 - digits
    let (n, d) :=
      if 0 ≤ scale then (value.1, value.2 * tenTo scale.toNat)
      else (value.1 * tenTo (-scale).toNat, value.2)
    let below := n / d
    let inBelow := below ≠ 0 && b.contains unit below scale
    let inAbove := b.contains unit (below + 1) scale
    if inBelow && inAbove then some ⟨roundDivEven n d, scale⟩
    else if inBelow then some ⟨below, scale⟩
    else if inAbove then some ⟨below + 1, scale⟩
    else shortestFrom b value unit top fuel (digits + 1)

/-- The numeral without zeros at its end. -/
def Numeral.trimmed (n : Numeral) : (fuel : Nat) → Numeral
  | 0 => n
  | fuel + 1 =>
    if n.digits % 10 = 0 then Numeral.trimmed ⟨n.digits / 10, n.scale + 1⟩ fuel else n

/-- Seventeen digits always suffice. -/
def shortest (mantissa : Nat) (exponent : Int) : Numeral :=
  let value := scaled mantissa 1 (-exponent)
  let unit := scaled 1 1 (2 - exponent)
  ((shortestFrom (basin mantissa exponent) value unit (decade value.1 value.2) 17 1).getD
    ⟨mantissa, 0⟩).trimmed 17

/-- The spellings that differ between the places where numbers are written. -/
structure Spelling where
  nan : String
  infinity : String

def zeros (n : Nat) : List Char :=
  List.replicate n '0'

def twoDigits (n : Nat) : List Char :=
  if n < 10 then '0' :: Nat.toDigits 10 n else Nat.toDigits 10 n

/-- Values from 10^-4 up to 10^16 are positional and keep a fraction; others have an exponent of at
least two digits with its sign. -/
def Numeral.text (n : Numeral) : List Char :=
  let ds := Nat.toDigits 10 n.digits
  let point : Int := n.scale + ds.length
  if -4 < point ∧ point ≤ 16 then
    if point ≤ 0 then '0' :: '.' :: zeros (-point).toNat ++ ds
    else if point.toNat < ds.length then ds.take point.toNat ++ '.' :: ds.drop point.toNat
    else ds ++ zeros (point.toNat - ds.length) ++ ['.', '0']
  else
    let exponent := point - 1
    let sign := if exponent < 0 then '-' else '+'
    let fraction := if ds.length = 1 then [] else '.' :: ds.tail
    ds.take 1 ++ fraction ++ 'e' :: sign :: twoDigits exponent.natAbs

def text (spelling : Spelling) : Binary64 → String
  | .nan => spelling.nan
  | .infinite negative => (if negative then "-" else "") ++ spelling.infinity
  | .finite negative mantissa exponent =>
    let magnitude :=
      if mantissa = 0 then "0.0" else String.ofList (shortest mantissa exponent).text
    (if negative then "-" else "") ++ magnitude

end Binary64

end DocNavigation.Number
