import VideoCatalog.Text.Integer
import VideoCatalog.Text.Ranges

/-!
Datatypes of character data, as both grammar languages have them: texts, truth values and integers
of a range. A text may be restricted to a row of character classes, each repeated some number of
times, such as `[a-z0-9]+`.
-/

namespace VideoCatalog

/-- Characters of one class, one after the other, at least `least` of them and, where a limit is
given, at most `most`. -/
structure ClassRun where
  ranges : List (Nat × Nat)
  least : Nat := 1
  most : Option Nat := some 1
  deriving DecidableEq

namespace ClassRun

/-- Whether a character belongs to the class. -/
def admits (r : ClassRun) (c : Char) : Bool :=
  Text.inRanges r.ranges c.toNat

/-- Whether characters are a run of the class. -/
def accepts (r : ClassRun) (cs : List Char) : Bool :=
  r.least ≤ cs.length && r.most.all (fun most => cs.length ≤ most) && cs.all r.admits

/-- Whether characters can be divided into runs of the classes of a row. -/
def rowAccepts : List ClassRun → List Char → Bool
  | [], cs => cs.isEmpty
  | r :: rs, cs =>
    (List.range (cs.length + 1)).any (fun n => r.accepts (cs.take n) && rowAccepts rs (cs.drop n))

/-- Whether a character stands for itself in a pattern. -/
def isPlain (c : Char) : Bool :=
  !("\\[]()\x7b\x7d.?*+|^$-&".toList.contains c)

/-- The ranges that stand between the brackets of a class. -/
def ranges? : List Char → Option (List (Nat × Nat))
  | [] => some []
  | first :: '-' :: last :: cs =>
    if isPlain first && isPlain last then
      (ranges? cs).map (fun more => (first.toNat, last.toNat) :: more)
    else none
  | c :: cs =>
    if isPlain c then (ranges? cs).map (fun more => (c.toNat, c.toNat) :: more) else none

/-- A class with the sign of repetition behind it, and what follows the sign. -/
def repeated (ranges : List (Nat × Nat)) : List Char → ClassRun × List Char
  | '?' :: cs => ({ ranges := ranges, least := 0 }, cs)
  | '*' :: cs => ({ ranges := ranges, least := 0, most := none }, cs)
  | '+' :: cs => ({ ranges := ranges, most := none }, cs)
  | cs => ({ ranges := ranges }, cs)

/-- The row of classes that a pattern spells out, if it is no more than that. `fuel` bounds the
number of classes. -/
def rowFrom? : Nat → List Char → Option (List ClassRun)
  | _, [] => some []
  | 0, _ => none
  | fuel + 1, '[' :: cs =>
    let inside := cs.takeWhile (fun c => c ≠ ']')
    match cs.drop inside.length with
    | _ :: behind => do
      let (run, rest) := repeated (← ranges? inside) behind
      (rowFrom? fuel rest).map (run :: ·)
    | [] => none
  | fuel + 1, c :: cs =>
    if isPlain c then
      let (run, rest) := repeated [(c.toNat, c.toNat)] cs
      (rowFrom? fuel rest).map (run :: ·)
    else none

/-- The row of classes that a pattern spells out, if it is no more than that. -/
def row? (pattern : String) : Option (List ClassRun) :=
  rowFrom? pattern.length pattern.toList

end ClassRun

/-- What the character data of an element may be. -/
inductive Datatype where
  /-- Any text, or one that a row of classes accepts. -/
  | text (row : Option (List ClassRun))
  | truth
  /-- An integer between bounds that may be missing. -/
  | integer (low high : Option Int)
  deriving DecidableEq

namespace Datatype

/-- The integers that so many bits can hold, with or without negative ones. -/
def ofBits (signed : Bool) (bits : Nat) : Datatype :=
  if signed then .integer (some (-(Nat.pow 2 (bits - 1)))) (some (Nat.pow 2 (bits - 1) - 1))
  else .integer (some 0) (some (Nat.pow 2 bits - 1))

/-- The datatype of this name. -/
def ofName? (name : String) : Option Datatype :=
  match name with
  | "string" => some (.text none)
  | "normalizedString" => some (.text none)
  | "token" => some (.text none)
  | "anyURI" => some (.text none)
  | "boolean" => some .truth
  | "integer" => some (.integer none none)
  | "nonNegativeInteger" => some (.integer (some 0) none)
  | "positiveInteger" => some (.integer (some 1) none)
  | "long" => some (ofBits true 64)
  | "int" => some (ofBits true 32)
  | "short" => some (ofBits true 16)
  | "byte" => some (ofBits true 8)
  | "unsignedLong" => some (ofBits false 64)
  | "unsignedInt" => some (ofBits false 32)
  | "unsignedShort" => some (ofBits false 16)
  | "unsignedByte" => some (ofBits false 8)
  | _ => none

/-- A datatype whose texts have to fit a pattern as well. -/
def restrict? (d : Datatype) (pattern : String) : Option Datatype :=
  match d with
  | .text none => (ClassRun.row? pattern).map (fun row => .text (some row))
  | _ => none

/-- The integer that characters denote. -/
def integerOf? : List Char → Option Int
  | '+' :: ds => (Text.digits? ds).map Int.ofNat
  | '-' :: ds => (Text.digits? ds).map (fun n => -(n : Int))
  | ds => (Text.digits? ds).map Int.ofNat

/-- Whether a text is of the datatype; white space at its ends does not count. -/
def accepts (d : Datatype) (s : String) : Bool :=
  let value := Text.trim s
  match d with
  | .text none => true
  | .text (some row) => ClassRun.rowAccepts row value.toList
  | .truth => ["true", "false", "1", "0"].contains value
  | .integer low high =>
    match integerOf? value.toList with
    | some i => low.all (fun bound => bound ≤ i) && high.all (fun bound => i ≤ bound)
    | none => false

end Datatype

end VideoCatalog
