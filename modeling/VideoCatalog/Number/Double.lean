import VideoCatalog.Text.Integer

/-!
Binary floating point numbers of 64 bits, as exact values: a sign and a magnitude `mantissa` times a
power of two. `ofRatio` takes a quotient of natural numbers to the nearest of them, and of two
nearest ones to the one with the even mantissa; arithmetic goes through exact quotients and rounds
once.
-/

namespace VideoCatalog

/-- A magnitude `mantissa * 2 ^ exponent`. -/
structure Dyadic where
  mantissa : Nat
  exponent : Int
  deriving DecidableEq

namespace Dyadic

/-- The magnitude as a quotient of natural numbers. -/
def ratio (d : Dyadic) : Nat × Nat :=
  if 0 ≤ d.exponent then (d.mantissa * Nat.pow 2 d.exponent.toNat, 1)
  else (d.mantissa, Nat.pow 2 (-d.exponent).toNat)

end Dyadic

/-- A floating point number. -/
inductive Double where
  | finite (negative : Bool) (magnitude : Dyadic)
  | infinite (negative : Bool)
  | notANumber
  deriving DecidableEq

namespace Double

/-- A quotient rounded to a natural number, halves to the even neighbour. -/
def roundQuotient (num den : Nat) : Nat :=
  let q := num / den
  let r := num % den
  if 2 * r < den then q else if den < 2 * r then q + 1 else if q % 2 = 0 then q else q + 1

/-- A quotient divided by a power of two. -/
def scale (num den : Nat) (exponent : Int) : Nat × Nat :=
  if 0 ≤ exponent then (num, den * Nat.pow 2 exponent.toNat)
  else (num * Nat.pow 2 (-exponent).toNat, den)

/-- The least exponent. -/
def leastExponent : Int := -1074

/-- The exponent at which a quotient above zero has a mantissa of 53 bits, or the least one. -/
def exponentOf (num den : Nat) : Int :=
  let guess : Int := (Nat.log2 num : Int) - (Nat.log2 den : Int) - 52
  let (n, d) := scale num den guess
  let exponent := if n / d < Nat.pow 2 52 then guess - 1 else guess
  if exponent < leastExponent then leastExponent else exponent

/-- The nearest number to a quotient of natural numbers; `den` is not zero. -/
def ofRatio (num den : Nat) : Double :=
  if num = 0 then .finite false ⟨0, leastExponent⟩
  else
    let exponent := exponentOf num den
    let (n, d) := scale num den exponent
    let m := roundQuotient n d
    let rounded : Dyadic :=
      if m = Nat.pow 2 53 then ⟨Nat.pow 2 52, exponent + 1⟩ else ⟨m, exponent⟩
    if 971 < rounded.exponent then .infinite false else .finite false rounded

/-- A natural number as a floating point number. -/
def ofNat (n : Nat) : Double :=
  ofRatio n 1

/-- The zero. -/
def zero : Double :=
  ofNat 0

/-- The number with the other sign. -/
def neg : Double → Double
  | .finite negative magnitude => .finite (!negative) magnitude
  | .infinite negative => .infinite (!negative)
  | .notANumber => .notANumber

/-- The magnitude of a number as a quotient; zero if it is not finite. -/
def ratio : Double → Nat × Nat
  | .finite _ magnitude => magnitude.ratio
  | _ => (0, 1)

/-- The sum of two magnitudes. -/
def sum (a b : Double) : Double :=
  ofRatio (a.ratio.1 * b.ratio.2 + b.ratio.1 * a.ratio.2) (a.ratio.2 * b.ratio.2)

/-- The product of two magnitudes. -/
def product (a b : Double) : Double :=
  ofRatio (a.ratio.1 * b.ratio.1) (a.ratio.2 * b.ratio.2)

/-- The quotient of two magnitudes, the second of which is not zero. -/
def quotient (a b : Double) : Double :=
  ofRatio (a.ratio.1 * b.ratio.2) (a.ratio.2 * b.ratio.1)

/-- Whether the magnitude is zero. -/
def isZero (a : Double) : Bool :=
  a.ratio.1 = 0

/-! ## Reading -/

/-- A power of ten times a natural number. -/
def ofDecimal (digits : Nat) (place : Int) : Double :=
  if 0 ≤ place then ofRatio (digits * Nat.pow 10 place.toNat) 1
  else ofRatio digits (Nat.pow 10 (-place).toNat)

/-- The number that a decimal text without a sign denotes. -/
def ofUnsigned? (cs : List Char) : Option Double := do
  let word := String.ofList (cs.map Char.toLower)
  if word = "inf" || word = "infinity" then some (.infinite false)
  else if word = "nan" then some .notANumber
  else
    let mantissa := cs.takeWhile (fun c => c ≠ 'e' && c ≠ 'E')
    let exponent ←
      match cs.drop mantissa.length with
      | [] => some 0
      | _ :: rest => Text.integer? (-100000) 100000 rest
    let whole := mantissa.takeWhile (fun c => c ≠ '.')
    let places := (mantissa.drop whole.length).drop 1
    let digits ← Text.digits? (whole ++ places)
    some (ofDecimal digits (exponent - places.length))

/-- The number that a decimal text denotes; the words for infinity and for no number are read as
well, in whatever case. -/
def ofText? (s : String) : Option Double :=
  let (negative, cs) : Bool × List Char :=
    match s.toList with
    | '-' :: cs => (true, cs)
    | '+' :: cs => (false, cs)
    | cs => (false, cs)
  (ofUnsigned? cs).map (fun x => if negative then x.neg else x)

end Double

end VideoCatalog
