/-!
Sets of characters given as ranges of code points, the form in which the tables of this library
write the properties of characters.
-/

namespace VideoCatalog.Text

/-- Whether a code point lies in one of the ranges, both ends included. -/
def inRanges (ranges : List (Nat × Nat)) (code : Nat) : Bool :=
  ranges.any (fun r => r.1 ≤ code && code ≤ r.2)

end VideoCatalog.Text
