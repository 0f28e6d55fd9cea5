import VideoCatalog.Text.Integer
import VideoCatalog.Toml.Value

/-!
TOML values that are written without quotes or brackets: truth values, integers in four bases,
numbers with a fraction or an exponent, and dates and times.
-/

namespace VideoCatalog.Toml

/-- Digits with single underscores between them, and what they are without the underscores. -/
def underscored? (isDigit : Char → Bool) : List Char → Option (List Char)
  | [] => none
  | [c] => if isDigit c then some [c] else none
  | c :: '_' :: cs => if isDigit c then (underscored? isDigit cs).map (c :: ·) else none
  | c :: cs => if isDigit c then (underscored? isDigit cs).map (c :: ·) else none

/-- The value of a hexadecimal digit. -/
def digitValue (c : Char) : Nat :=
  let n := c.toNat
  if n ≤ 57 then n - 48 else if n ≤ 70 then n - 55 else n - 87

/-- The number that digits denote in a base. -/
def valueIn (base : Nat) (digits : List Char) : Nat :=
  digits.foldl (fun n c => n * base + digitValue c) 0

/-- Whether a character is a digit in a base. -/
def isDigitIn (base : Nat) (c : Char) : Bool :=
  (c.isDigit || (65 ≤ c.toNat && c.toNat ≤ 70) || (97 ≤ c.toNat && c.toNat ≤ 102)) &&
    digitValue c < base

/-- Whether decimal digits have a zero in front that means nothing. -/
def hasLeadingZero (digits : List Char) : Bool :=
  match digits with
  | '0' :: _ :: _ => true
  | _ => false

/-- The decimal digits of a whole number. -/
def wholeDigits? (cs : List Char) : Option (List Char) := do
  let digits ← underscored? Char.isDigit cs
  if hasLeadingZero digits then none else some digits

/-- A sign in front: whether it is a minus, and what follows it. -/
def splitSign (cs : List Char) : Bool × List Char :=
  match cs with
  | '+' :: rest => (false, rest)
  | '-' :: rest => (true, rest)
  | _ => (false, cs)

/-- An integer; it must fit in 128 bits, with or without a sign. -/
def integer? (cs : List Char) : Option Int := do
  let inRange (i : Int) : Option Int :=
    if -(Nat.pow 2 127 : Int) ≤ i && i < (Nat.pow 2 128 : Int) then some i else none
  let based (base : Nat) (cs : List Char) : Option Int := do
    let digits ← underscored? (isDigitIn base) cs
    inRange (valueIn base digits)
  match cs with
  | '0' :: 'x' :: rest => based 16 rest
  | '0' :: 'o' :: rest => based 8 rest
  | '0' :: 'b' :: rest => based 2 rest
  | _ =>
    let (negative, rest) := splitSign cs
    let digits ← wholeDigits? rest
    let n : Int := valueIn 10 digits
    inRange (if negative then -n else n)

/-- The exponent behind an `e`: any digits, with an optional sign. -/
def exponent? (cs : List Char) : Option Int := do
  let (negative, rest) := splitSign cs
  let digits ← underscored? Char.isDigit rest
  let n : Int := valueIn 10 digits
  some (if negative then -n else n)

/-- Whether digits with a scale of ten are too large for a floating point number of 64 bits. -/
def tooLarge (digits : List Char) (scale : Int) : Bool :=
  let digits := digits.dropWhile (fun c => c = '0')
  if digits.isEmpty then false
  else
    let places : Int := digits.length + scale
    if 310 < places then true
    else if places < 300 then false
    else
      let n := valueIn 10 digits
      let bound := Nat.pow 2 1024 - Nat.pow 2 970
      if 0 ≤ scale then bound ≤ n * Nat.pow 10 scale.toNat
      else bound * Nat.pow 10 (-scale).toNat ≤ n

/-- Whether the characters are a number with a fraction or an exponent, or one of the words for
infinity and for no number. -/
def isFloat (cs : List Char) : Bool :=
  let (_, rest) := splitSign cs
  if rest = "inf".toList || rest = "nan".toList then true
  else
    let whole := rest.takeWhile (fun c => c ≠ '.' && c ≠ 'e' && c ≠ 'E')
    let rest := rest.drop whole.length
    let (hasFraction, fraction, rest) :=
      match rest with
      | '.' :: rest =>
        let fraction := rest.takeWhile (fun c => c ≠ 'e' && c ≠ 'E')
        (true, fraction, rest.drop fraction.length)
      | _ => (false, [], rest)
    let exponentText? : Option (List Char) :=
      match rest with
      | _ :: rest => some rest
      | [] => none
    let wholeDigits := wholeDigits? whole
    let fractionDigits := if hasFraction then underscored? Char.isDigit fraction else some []
    let exponent := match exponentText? with
      | some cs => exponent? cs
      | none => some 0
    match wholeDigits, fractionDigits, exponent with
    | some ws, some fs, some e =>
      (hasFraction || exponentText?.isSome) && !tooLarge (ws ++ fs) (e - fs.length)
    | _, _, _ => false

/-! ## Dates and times -/

/-- A number of exactly so many decimal digits at the front. -/
def fixedDigits? (count : Nat) (cs : List Char) : Option (Nat × List Char) :=
  let digits := cs.take count
  if digits.length = count && digits.all Char.isDigit then
    some (valueIn 10 digits, cs.drop count)
  else none

/-- The number of days of a month. -/
def daysIn (year month : Nat) : Nat :=
  if month = 2 then
    if (year % 4 = 0 && year % 100 ≠ 0) || year % 400 = 0 then 29 else 28
  else if month = 4 || month = 6 || month = 9 || month = 11 then 30
  else 31

/-- What follows a date. -/
def date? (cs : List Char) : Option (List Char) := do
  let (year, rest) ← fixedDigits? 4 cs
  match rest with
  | '-' :: rest =>
    let (month, rest) ← fixedDigits? 2 rest
    match rest with
    | '-' :: rest =>
      let (day, rest) ← fixedDigits? 2 rest
      if 1 ≤ month && month ≤ 12 && 1 ≤ day && day ≤ daysIn year month then some rest else none
    | _ => none
  | _ => none

/-- What follows a time; its seconds may be left out. -/
def time? (cs : List Char) : Option (List Char) := do
  let (hour, rest) ← fixedDigits? 2 cs
  match rest with
  | ':' :: rest =>
    let (minute, rest) ← fixedDigits? 2 rest
    if 23 < hour || 59 < minute then none
    else
      match rest with
      | ':' :: rest =>
        let (second, rest) ← fixedDigits? 2 rest
        if 60 < second then none
        else
          match rest with
          | '.' :: rest =>
            let digits := rest.takeWhile Char.isDigit
            if digits.isEmpty then none else some (rest.drop digits.length)
          | _ => some rest
      | _ => some rest
  | _ => none

/-- Whether the characters are the distance of a local time from universal time. -/
def isOffset (cs : List Char) : Bool :=
  let amount (cs : List Char) : Bool :=
    match fixedDigits? 2 cs with
    | some (hour, ':' :: rest) =>
      match fixedDigits? 2 rest with
      | some (minute, []) => hour ≤ 23 && minute ≤ 59
      | _ => false
    | _ => false
  match cs with
  | ['Z'] => true
  | ['z'] => true
  | '+' :: rest => amount rest
  | '-' :: rest => amount rest
  | _ => false

/-- Whether the characters are a date, a time, or a date and a time with or without an offset. -/
def isDatetime (cs : List Char) : Bool :=
  match date? cs with
  | some [] => true
  | some (separator :: rest) =>
    (separator = 'T' || separator = 't' || separator = ' ') &&
      match time? rest with
      | some [] => true
      | some rest => isOffset rest
      | none => false
  | none => time? cs = some []

/-- The value that the characters denote. -/
def scalar? (cs : List Char) : Option Value :=
  if cs = "true".toList then some (.boolean true)
  else if cs = "false".toList then some (.boolean false)
  else
    match integer? cs with
    | some i => some (.integer i)
    | none =>
      if isFloat cs then some .float
      else if isDatetime cs then some .datetime
      else none

end VideoCatalog.Toml
