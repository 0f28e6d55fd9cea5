import VideoCatalog.Text.Blank

/-!
Integers in text: an optional sign and one or more decimal digits, nothing else, and in range.
-/

namespace VideoCatalog.Text

/-- The number that a row of digits denotes; nothing if it is empty or holds another character. -/
def digits? (cs : List Char) : Option Nat :=
  if cs.isEmpty || !cs.all Char.isDigit then none
  else some (cs.foldl (fun n c => n * 10 + (c.toNat - 48)) 0)

/-- The integer that a text denotes, if it lies between the bounds; a plus sign is allowed, a minus
sign only where the range has negative numbers. -/
def integer? (low high : Int) (cs : List Char) : Option Int :=
  let signed : Option Int :=
    match cs with
    | '+' :: ds => (digits? ds).map Int.ofNat
    | '-' :: ds => if low < 0 then (digits? ds).map (fun n => -(n : Int)) else none
    | ds => (digits? ds).map Int.ofNat
  signed.filter (fun i => low ≤ i && i ≤ high)

/-- An integer of 64 bits. -/
def int64? (s : String) : Option Int64 :=
  (integer? Int64.minValue.toInt Int64.maxValue.toInt s.toList).map Int64.ofInt

/-- An integer of 32 bits. -/
def int32? (s : String) : Option Int32 :=
  (integer? Int32.minValue.toInt Int32.maxValue.toInt s.toList).map Int32.ofInt

/-- A count of at most 64 bits. -/
def count? (s : String) : Option Nat :=
  (integer? 0 (UInt64.size - 1) s.toList).map Int.toNat

/-- A number in decimal digits, at least `width` of them. -/
def padded (width n : Nat) : String :=
  let s := toString n
  String.ofList (List.replicate (width - s.length) '0') ++ s

end VideoCatalog.Text
