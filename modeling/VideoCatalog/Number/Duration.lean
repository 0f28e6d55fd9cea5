import VideoCatalog.Json.Value
import VideoCatalog.Number.Decimal

/-!
Lengths of time in whole nanoseconds, and how they are shown: in milliseconds below a second, in
seconds below a minute, else in minutes and seconds.
-/

namespace VideoCatalog

/-- A length of time. -/
structure Duration where
  nanoseconds : Nat := 0
  deriving DecidableEq

namespace Duration

/-- The nanoseconds of a second. -/
def perSecond : Nat := 1000000000

/-- So many seconds and nanoseconds. -/
def of (seconds nanoseconds : Nat) : Duration :=
  { nanoseconds := seconds * perSecond + nanoseconds }

/-- The whole seconds. -/
def seconds (d : Duration) : Nat :=
  d.nanoseconds / perSecond

/-- The nanoseconds beyond the whole seconds. -/
def subsecond (d : Duration) : Nat :=
  d.nanoseconds % perSecond

/-- One length of time after another. -/
def add (a b : Duration) : Duration :=
  { nanoseconds := a.nanoseconds + b.nanoseconds }

/-- An equal share of a length of time. -/
def share (d : Duration) (count : Nat) : Duration :=
  { nanoseconds := d.nanoseconds / count }

/-- The seconds as a floating point number: those of the whole seconds and those of the rest, each
rounded, are added. -/
def inSeconds (d : Duration) : Double :=
  (Double.ofNat d.seconds).sum (Double.ofRatio d.subsecond perSecond)

/-- The length of time for a reader. -/
def text (d : Duration) : String :=
  let (num, den) := d.inSeconds.ratio
  if num < den then toString (d.nanoseconds / 1000000) ++ "ms"
  else if num < 60 * den then Decimal.fixedRatio 2 num den ++ "s"
  else
    let (m, n) := (d.inSeconds.quotient (Double.ofNat 60)).ratio
    toString (m / n) ++ "m" ++ Decimal.fixedRatio 1 (num % (60 * den)) den ++ "s"

/-- The length of time as JSON. -/
def toJson (d : Duration) : Json :=
  .object [("secs", .ofNat d.seconds), ("nanos", .ofNat d.subsecond)]

end Duration

end VideoCatalog
