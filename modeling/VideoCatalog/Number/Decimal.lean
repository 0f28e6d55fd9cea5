import VideoCatalog.Number.Double
import VideoCatalog.Text.Integer

/-!
Decimal texts of numbers: with a fixed number of places, and with the fewest digits that read back
as the same floating point number.

`fixed` rounds the exact value, a half to the even neighbour. `shortest` looks at the decimal grids
of 1, 2, … digits; the first grid with a point among the reals that round to the number wins, and of
two such points the nearer one.
-/

namespace VideoCatalog.Decimal

/-! ## Fixed places -/

/-- A quotient in decimal digits with so many places. -/
def fixedRatio (places num den : Nat) : String :=
  let scaled := Double.roundQuotient (num * Nat.pow 10 places) den
  if places = 0 then toString scaled
  else
    let digits := (Text.padded (places + 1) scaled).toList
    let whole := digits.take (digits.length - places)
    String.ofList whole ++ "." ++ String.ofList (digits.drop whole.length)

/-- A number in decimal digits with so many places. -/
def fixed (places : Nat) : Double → String
  | .finite negative magnitude =>
    (if negative then "-" else "") ++ fixedRatio places magnitude.ratio.1 magnitude.ratio.2
  | .infinite negative => if negative then "-inf" else "inf"
  | .notANumber => "NaN"

/-! ## Fewest digits -/

/-- The reals that round to a magnitude, as quotients by one denominator; the ends belong to them
if `closed`. -/
structure Basin where
  low : Nat
  value : Nat
  high : Nat
  denominator : Nat
  closed : Bool

/-- The reals that round to a magnitude that is not zero. Below a power of two they are half as
far away. -/
def Basin.of (d : Dyadic) : Basin :=
  let isPower := d.mantissa = Nat.pow 2 52 && Double.leastExponent < d.exponent
  let (n, den) := d.ratio
  let unit := if 0 ≤ d.exponent then Nat.pow 2 d.exponent.toNat else 1
  { low := 4 * n - (if isPower then unit else 2 * unit)
    value := 4 * n
    high := 4 * n + 2 * unit
    denominator := 4 * den
    closed := d.mantissa % 2 = 0 }

namespace Basin

/-- Whether `point * 10 ^ place` is one of the reals. -/
def holds (b : Basin) (point : Nat) (place : Int) : Bool :=
  let (p, scaleDown) :=
    if 0 ≤ place then (point * Nat.pow 10 place.toNat * b.denominator, 1)
    else (point * b.denominator, Nat.pow 10 (-place).toNat)
  if b.closed then b.low * scaleDown ≤ p && p ≤ b.high * scaleDown
  else b.low * scaleDown < p && p < b.high * scaleDown

/-- The point of the grid of multiples of `10 ^ place` that stands for the magnitude, if there is
one among the reals: the nearer one of its two neighbours on the grid. -/
def point? (b : Basin) (place : Int) : Option Nat :=
  let (num, den) :=
    if 0 ≤ place then (b.value, b.denominator * Nat.pow 10 place.toNat)
    else (b.value * Nat.pow 10 (-place).toNat, b.denominator)
  let nearest := Double.roundQuotient num den
  let other := if nearest * den ≤ num then nearest + 1 else nearest - 1
  if 0 < nearest && b.holds nearest place then some nearest
  else if 0 < other && b.holds other place then some other
  else none

end Basin

/-- The number of digits in front of the decimal point of a quotient; of a quotient below one it is
zero or minus the number of zeros behind the point. `fuel` bounds the number of these. -/
def magnitudeOf (num den : Nat) : Nat → Int
  | 0 => 0
  | fuel + 1 =>
    if den ≤ num then (toString (num / den)).length
    else if den ≤ 10 * num then 0
    else magnitudeOf (10 * num) den fuel - 1

/-- The first point on the grids of `digits` and more digits; `left` more grids are looked at. -/
def firstPoint (b : Basin) (magnitude : Int) (digits : Nat) : Nat → Nat × Int
  | 0 => (0, 0)
  | left + 1 =>
    let place := magnitude - digits
    match b.point? place with
    | some point => (point, place)
    | none => firstPoint b magnitude (digits + 1) left

/-- A point without the zeros at its end. `fuel` bounds their number. -/
def withoutZeros (place : Int) (point : Nat) : Nat → Nat × Int
  | 0 => (point, place)
  | fuel + 1 =>
    if point ≠ 0 && point % 10 = 0 then withoutZeros (place + 1) (point / 10) fuel
    else (point, place)

/-- The fewest digits of a magnitude that is not zero: digits, and the place of the last one. -/
def shortestDigits (d : Dyadic) : Nat × Int :=
  let (num, den) := d.ratio
  let (point, place) := firstPoint (Basin.of d) (magnitudeOf num den 400) 1 18
  withoutZeros place point 20

/-- A magnitude as JSON has it: positional from `1e-5` up to below `1e16`, else with an exponent;
a positional text has a decimal point, an exponent has its sign. -/
def shortestMagnitude (d : Dyadic) : String :=
  if d.mantissa = 0 then "0.0"
  else
    let (point, place) := shortestDigits d
    let digits := (toString point).toList
    let whole : Int := digits.length + place
    let zeros (n : Int) : String := String.ofList (List.replicate n.toNat '0')
    if 0 ≤ place && whole ≤ 16 then String.ofList digits ++ zeros place ++ ".0"
    else if 0 < whole && whole ≤ 16 then
      String.ofList (digits.take whole.toNat) ++ "." ++ String.ofList (digits.drop whole.toNat)
    else if -5 < whole && whole ≤ 0 then "0." ++ zeros (-whole) ++ String.ofList digits
    else
      let mantissa :=
        match digits with
        | [d] => String.singleton d
        | d :: ds => String.singleton d ++ "." ++ String.ofList ds
        | [] => ""
      mantissa ++ (if 0 < whole then "e+" else "e") ++ toString (whole - 1)

/-- A finite number with the fewest digits; nothing if it is not finite. -/
def shortest? : Double → Option String
  | .finite negative magnitude =>
    some ((if negative then "-" else "") ++ shortestMagnitude magnitude)
  | _ => none

end VideoCatalog.Decimal
