import VideoCatalog.Json.Value

/-!
Reading JSON text piece by piece into typed values.

A reader takes the characters still to come and either returns a value with the characters after
it or says why it stops: the text is no JSON, it ends too soon, or it is JSON of another type than
asked for. Which of these it is depends on the first place where the text goes wrong, so typed
readers look at one value at a time; a value that nobody asked for is skipped at any depth.

`Field` and `record` describe an object with known members, each optional, which may also be
written as the array of its members in order.
-/

namespace VideoCatalog.Json

/-- Why a text cannot be read as a value of the type asked for. -/
inductive Fault where
  /-- The text is not JSON. -/
  | malformed
  /-- The text ends inside a value. -/
  | truncated
  /-- The text holds a value of another type, out of range, or given twice. -/
  | mistyped
  deriving DecidableEq

/-- Reads a value off the front of the characters and returns those after it. -/
abbrev Reader (α : Type) := List Char → Except Fault (α × List Char)

namespace Reader

/-- Blanks between the tokens of a JSON text. -/
def isGap (c : Char) : Bool :=
  c = ' ' || c = '\n' || c = '\t' || c = '\r'

/-- The characters from the next token on. -/
def skipGap (cs : List Char) : List Char :=
  cs.dropWhile isGap

/-- The letters of a word that has begun, such as `ull` after an `n`. -/
def word : List Char → Reader Unit
  | [], cs => .ok ((), cs)
  | _ :: _, [] => .error .truncated
  | w :: ws, c :: cs => if c = w then word ws cs else .error .malformed

/-! ## Strings -/

/-- The value of a hexadecimal digit in either case. -/
def hexValue? (c : Char) : Option Nat :=
  let n := c.toNat
  if 48 ≤ n && n ≤ 57 then some (n - 48)
  else if 97 ≤ n && n ≤ 102 then some (n - 87)
  else if 65 ≤ n && n ≤ 70 then some (n - 55)
  else none

/-- Four hexadecimal digits; the text is cut short if fewer than four bytes are left. -/
def hexQuad (cs : List Char) : Except Fault (Nat × List Char) :=
  match cs with
  | a :: b :: c :: d :: rest =>
    match hexValue? a, hexValue? b, hexValue? c, hexValue? d with
    | some w, some x, some y, some z => .ok (((w * 16 + x) * 16 + y) * 16 + z, rest)
    | _, _, _, _ => .error .malformed
  | _ => if (String.ofList cs).utf8ByteSize < 4 then .error .truncated else .error .malformed

/-- The character of an escape other than `\u`. -/
def simpleEscape? (c : Char) : Option Char :=
  match c with
  | '\x22' => some '\x22'
  | '\x5c' => some '\x5c'
  | '/' => some '/'
  | 'b' => some '\x08'
  | 'f' => some '\x0c'
  | 'n' => some '\n'
  | 'r' => some '\r'
  | 't' => some '\t'
  | _ => none

/-- The second half of a surrogate pair, after a first half that has been read. -/
def lowSurrogate (high : Nat) : List Char → Except Fault (Char × List Char)
  | [] => .error .truncated
  | '\x5c' :: 'u' :: rest => do
    let (low, rest) ← hexQuad rest
    if 0xDC00 ≤ low && low ≤ 0xDFFF then
      .ok (Char.ofNat ((high - 0xD800) * 0x400 + (low - 0xDC00) + 0x10000), rest)
    else .error .malformed
  | ['\x5c'] => .error .truncated
  | _ => .error .malformed

/-- The character of an escape whose backslash has been read; halves of surrogate pairs must
stand together. -/
def escaped : List Char → Except Fault (Char × List Char)
  | [] => .error .truncated
  | 'u' :: rest => do
    let (code, rest) ← hexQuad rest
    if 0xDC00 ≤ code && code ≤ 0xDFFF then .error .malformed
    else if 0xD800 ≤ code && code ≤ 0xDBFF then lowSurrogate code rest
    else .ok (Char.ofNat code, rest)
  | c :: rest =>
    match simpleEscape? c with
    | some d => .ok (d, rest)
    | none => .error .malformed

/-- An escape in a string that is skipped: the halves of surrogate pairs are not paired up. -/
def skippedEscape : List Char → Except Fault (Char × List Char)
  | [] => .error .truncated
  | 'u' :: rest => do
    let (_, rest) ← hexQuad rest
    .ok (' ', rest)
  | c :: rest =>
    match simpleEscape? c with
    | some d => .ok (d, rest)
    | none => .error .malformed

/-- The characters of a string up to its closing quote. `fuel` bounds the number of characters. -/
def quotedChars (escape : List Char → Except Fault (Char × List Char)) :
    Nat → List Char → Except Fault (List Char × List Char)
  | 0, _ => .error .truncated
  | _ + 1, [] => .error .truncated
  | fuel + 1, c :: cs =>
    if c = '\x22' then .ok ([], cs)
    else if c = '\x5c' then do
      let (d, rest) ← escape cs
      let (ds, rest) ← quotedChars escape fuel rest
      .ok (d :: ds, rest)
    else if c.toNat < 0x20 then .error .malformed
    else do
      let (ds, rest) ← quotedChars escape fuel cs
      .ok (c :: ds, rest)

/-- A string whose opening quote has been read. -/
def quoted : Reader String := fun cs => do
  let (ds, rest) ← quotedChars escaped (cs.length + 1) cs
  .ok (String.ofList ds, rest)

/-- A string that nobody asked for, whose opening quote has been read. -/
def skipQuoted : Reader Unit := fun cs => do
  let (_, rest) ← quotedChars skippedEscape (cs.length + 1) cs
  .ok ((), rest)

/-! ## Numbers -/

/-- A numeral as it is written. -/
structure Numeral where
  negative : Bool
  digits : List Char
  fraction : Option (List Char)
  exponent : Option (Bool × List Char)

namespace Numeral

/-- The number that a row of digits denotes. -/
def value (digits : List Char) : Nat :=
  digits.foldl (fun n c => n * 10 + (c.toNat - 48)) 0

/-- The integer written, if the numeral has neither a fraction nor an exponent; minus zero and
numbers of more than 64 bits are not integers. -/
def int? (n : Numeral) : Option Int :=
  let magnitude := value n.digits
  match n.fraction, n.exponent with
  | none, none =>
    if n.negative then
      if magnitude = 0 || magnitude > Nat.pow 2 63 then none else some (-(magnitude : Int))
    else if magnitude < UInt64.size then some magnitude else none
  | _, _ => none

/-- The leading digits that fit in 64 bits, and how many digits follow them. -/
def significand : List Char → Nat × Nat
  | [] => (0, 0)
  | c :: cs =>
    let rec go (acc : Nat) : List Char → Nat × Nat
      | [] => (acc, 0)
      | d :: ds =>
        let next := acc * 10 + (d.toNat - 48)
        if next < UInt64.size then go next ds else (acc, (d :: ds).length)
    go (c.toNat - 48) cs

/-- Whether the number is too large for a binary floating point number of 64 bits. -/
def overflows (n : Numeral) : Bool :=
  let whole := significand n.digits
  let all := significand (n.digits ++ n.fraction.getD [])
  let fractionDigits := (n.fraction.getD []).length
  let (digits, scale) : Nat × Int :=
    if whole.2 > 0 then (whole.1, whole.2) else (all.1, (all.2 : Int) - fractionDigits)
  let written : Int :=
    match n.exponent with
    | some (true, ds) => -(value ds : Int)
    | some (false, ds) => value ds
    | none => 0
  let power := scale + written
  if digits = 0 || power < 0 then false
  else if power > 308 then true
  else (Float.ofNat digits * Float.ofScientific 1 false power.toNat).isInf

/-- The numeral as text. -/
def text (n : Numeral) : String :=
  (if n.negative then "-" else "") ++ String.ofList n.digits ++
    (match n.fraction with
      | some ds => "." ++ String.ofList ds
      | none => "") ++
    (match n.exponent with
      | some (true, ds) => "e-" ++ String.ofList ds
      | some (false, ds) => "e" ++ String.ofList ds
      | none => "")

end Numeral

/-- A row of one or more digits. -/
def digitRow (atEnd : Fault) (cs : List Char) : Except Fault (List Char × List Char) :=
  match cs.takeWhile Char.isDigit, cs.dropWhile Char.isDigit with
  | [], [] => .error atEnd
  | [], _ :: _ => .error .malformed
  | ds, rest => .ok (ds, rest)

/-- The digits before the decimal point: a zero stands alone. -/
def wholeDigits (atEnd : Fault) (cs : List Char) : Except Fault (List Char × List Char) :=
  match cs with
  | '0' :: rest =>
    match rest with
    | d :: _ => if d.isDigit then .error .malformed else .ok (['0'], rest)
    | [] => .ok (['0'], [])
  | _ => digitRow atEnd cs

/-- The fraction of a numeral, if a decimal point follows. -/
def fractionPart (atEnd : Fault) (cs : List Char) :
    Except Fault (Option (List Char) × List Char) :=
  match cs with
  | '.' :: rest => do
    let (ds, rest) ← digitRow atEnd rest
    .ok (some ds, rest)
  | _ => .ok (none, cs)

/-- The sign of an exponent, if one is written: whether it is negative. -/
def exponentSign (cs : List Char) : Bool × List Char :=
  match cs with
  | '-' :: rest => (true, rest)
  | '+' :: rest => (false, rest)
  | _ => (false, cs)

/-- The exponent of a numeral, if an `e` follows. -/
def exponentPart (atEnd : Fault) (cs : List Char) :
    Except Fault (Option (Bool × List Char) × List Char) :=
  match cs with
  | c :: rest =>
    if c = 'e' || c = 'E' then do
      let (negative, rest) := exponentSign rest
      let (ds, rest) ← digitRow atEnd rest
      .ok (some (negative, ds), rest)
    else .ok (none, cs)
  | [] => .ok (none, [])

/-- A numeral; `atEnd` is the fault when the text ends where a digit is due. -/
def numeral (atEnd : Fault) : Reader Numeral := fun cs => do
  let (negative, cs) : Bool × List Char :=
    match cs with
    | '-' :: rest => (true, rest)
    | _ => (false, cs)
  let (digits, cs) ← wholeDigits atEnd cs
  let (fraction, cs) ← fractionPart atEnd cs
  let (exponent, cs) ← exponentPart atEnd cs
  .ok (⟨negative, digits, fraction, exponent⟩, cs)

/-- A numeral whose value is wanted; numbers too large to hold are refused. -/
def heldNumeral : Reader Numeral := fun cs => do
  let (n, rest) ← numeral .truncated cs
  if n.int?.isNone && n.overflows then .error .malformed else .ok (n, rest)

/-! ## Values -/

/-- What is wrong when a value of another type stands where one was asked for: the value is read
as far as its type shows, then refused. -/
def refuse : List Char → Fault
  | [] => .truncated
  | c :: cs =>
    let after {α : Type} (r : Except Fault (α × List Char)) : Fault :=
      match r with
      | .ok _ => .mistyped
      | .error fault => fault
    if c = 'n' then after (word "ull".toList cs)
    else if c = 't' then after (word "rue".toList cs)
    else if c = 'f' then after (word "alse".toList cs)
    else if c = '-' || c.isDigit then after (heldNumeral (c :: cs))
    else if c = '\x22' then after (quoted cs)
    else if c = '[' || c = '\x7b' then .mistyped
    else .malformed

/-- A string. -/
def string : Reader String := fun cs =>
  match skipGap cs with
  | '\x22' :: rest => quoted rest
  | rest => .error (refuse rest)

/-- A truth value. -/
def truth : Reader Bool := fun cs =>
  match skipGap cs with
  | 't' :: rest => do
    let (_, rest) ← word "rue".toList rest
    .ok (true, rest)
  | 'f' :: rest => do
    let (_, rest) ← word "alse".toList rest
    .ok (false, rest)
  | rest => .error (refuse rest)

/-- An integer between two bounds. -/
def integer (low high : Int) : Reader Int := fun cs =>
  match skipGap cs with
  | [] => .error .truncated
  | c :: rest =>
    if c = '-' || c.isDigit then do
      let (n, rest) ← heldNumeral (c :: rest)
      match n.int? with
      | some i => if low ≤ i && i ≤ high then .ok (i, rest) else .error .mistyped
      | none => .error .mistyped
    else .error (refuse (c :: rest))

/-- A value or `null`. -/
def optional {α : Type} (value : Reader α) : Reader (Option α) := fun cs =>
  match skipGap cs with
  | 'n' :: rest => do
    let (_, rest) ← word "ull".toList rest
    .ok (none, rest)
  | rest => do
    let (a, rest) ← value rest
    .ok (some a, rest)

/-- Whether another item follows in an array, and the characters from it on. -/
def nextItem (isFirst : Bool) (cs : List Char) : Except Fault (Bool × List Char) :=
  match skipGap cs with
  | [] => .error .truncated
  | ']' :: rest => .ok (false, rest)
  | c :: rest =>
    if isFirst then .ok (true, c :: rest)
    else if c = ',' then
      match skipGap rest with
      | [] => .error .truncated
      | ']' :: _ => .error .malformed
      | rest => .ok (true, rest)
    else .error .malformed

/-- The items of an array whose bracket has been read. `fuel` bounds their number. -/
def items {α : Type} (item : Reader α) : Nat → Bool → Reader (List α)
  | 0, _, _ => .error .truncated
  | fuel + 1, isFirst, cs => do
    let (more, rest) ← nextItem isFirst cs
    if more then do
      let (a, rest) ← item rest
      let (as, rest) ← items item fuel false rest
      .ok (a :: as, rest)
    else .ok ([], rest)

/-- An array of values of one type. -/
def list {α : Type} (item : Reader α) : Reader (List α) := fun cs =>
  match skipGap cs with
  | '[' :: rest => items item (rest.length + 1) true rest
  | rest => .error (refuse rest)

/-- The name of the next member of an object, or nothing at the closing brace. -/
def nextName (isFirst : Bool) (cs : List Char) : Except Fault (Option String × List Char) :=
  let name (cs : List Char) : Except Fault (Option String × List Char) := do
    let (s, rest) ← quoted cs
    .ok (some s, rest)
  match skipGap cs with
  | [] => .error .truncated
  | '\x7d' :: rest => .ok (none, rest)
  | c :: rest =>
    if isFirst then
      if c = '\x22' then name rest else .error .malformed
    else if c = ',' then
      match skipGap rest with
      | [] => .error .truncated
      | '\x22' :: rest => name rest
      | _ => .error .malformed
    else .error .malformed

/-- The colon between the name of a member and its value. -/
def colon : Reader Unit := fun cs =>
  match skipGap cs with
  | [] => .error .truncated
  | ':' :: rest => .ok ((), rest)
  | _ => .error .malformed

/-! ## Values that nobody asked for -/

/-- A value without parts. -/
def skipScalar : Reader Unit
  | [] => .error .truncated
  | c :: rest =>
    if c = 'n' then word "ull".toList rest
    else if c = 't' then word "rue".toList rest
    else if c = 'f' then word "alse".toList rest
    else if c = '\x22' then skipQuoted rest
    else if c = '-' || c.isDigit then do
      let (_, rest) ← numeral .malformed (c :: rest)
      .ok ((), rest)
    else .error .malformed

/-- Where skipping stands after a value or a bracket. -/
inductive SkipState where
  /-- The value is over. -/
  | finished (rest : List Char)
  /-- A value is due inside the brackets still open, innermost first and true for a brace. -/
  | expecting (opened : List Bool) (rest : List Char)

/-- The bracket that closes. -/
def closes (brace : Bool) (c : Char) : Bool :=
  if brace then c = '\x7d' else c = ']'

/-- The name and colon in front of a value inside braces; nothing inside brackets. -/
def skipName (brace : Bool) (cs : List Char) : Except Fault (List Char) :=
  if brace then
    match skipGap cs with
    | [] => .error .truncated
    | '\x22' :: rest => do
      let (_, rest) ← skipQuoted rest
      let (_, rest) ← colon rest
      .ok rest
    | _ => .error .malformed
  else .ok cs

/-- After a value: closing brackets, up to a comma or the end. -/
def skipClosing : List Bool → List Char → Except Fault SkipState
  | [], rest => .ok (.finished rest)
  | brace :: outer, rest =>
    match skipGap rest with
    | [] => .error .truncated
    | c :: rest =>
      if c = ',' then do
        let rest ← skipName brace rest
        .ok (.expecting (brace :: outer) rest)
      else if closes brace c then skipClosing outer rest
      else .error .malformed

/-- After an opening bracket. -/
def skipOpening (opened : List Bool) (brace : Bool) (cs : List Char) : Except Fault SkipState :=
  match skipGap cs with
  | [] => .error .truncated
  | c :: rest =>
    if closes brace c then skipClosing opened rest
    else do
      let rest ← skipName brace (c :: rest)
      .ok (.expecting (brace :: opened) rest)

/-- Values and brackets until none is open. `fuel` bounds the number of values and brackets. -/
def skipNested : Nat → List Bool → Reader Unit
  | 0, _, _ => .error .truncated
  | fuel + 1, opened, cs =>
    match skipGap cs with
    | [] => .error .truncated
    | c :: rest => do
      let state ←
        if c = '[' then skipOpening opened false rest
        else if c = '\x7b' then skipOpening opened true rest
        else do
          let (_, rest) ← skipScalar (c :: rest)
          skipClosing opened rest
      match state with
      | .finished rest => .ok ((), rest)
      | .expecting opened rest => skipNested fuel opened rest

/-- Any value, read and dropped. -/
def skip : Reader Unit := fun cs =>
  skipNested (cs.length + 1) [] cs

/-! ## Objects with known members -/

/-- A known member of an object: its name, and how its value changes what has been read so far. -/
structure Field (σ : Type) where
  name : String
  value : Reader (σ → σ)

/-- The known member of that name. -/
def field? {σ : Type} (fields : List (Field σ)) (name : String) : Option (Field σ) :=
  fields.find? (fun f => f.name == name)

/-- The members of an object whose brace has been read. A known name may occur once; members with
other names are skipped. -/
def members {σ : Type} (fields : List (Field σ)) :
    Nat → Bool → List String → σ → Reader σ
  | 0, _, _, _, _ => .error .truncated
  | fuel + 1, isFirst, seen, s, cs => do
    match ← nextName isFirst cs with
    | (none, rest) => .ok (s, rest)
    | (some name, rest) =>
      match field? fields name with
      | some field =>
        if seen.contains name then .error .mistyped
        else do
          let (_, rest) ← colon rest
          let (put, rest) ← field.value rest
          members fields fuel false (name :: seen) (put s) rest
      | none => do
        let (_, rest) ← colon rest
        let (_, rest) ← skip rest
        members fields fuel false seen s rest

/-- The members in order, written as an array; those left out at its end keep their values. -/
def positions {σ : Type} : List (Field σ) → Bool → σ → Reader σ
  | [], _, s, cs =>
    match skipGap cs with
    | [] => .error .truncated
    | ']' :: rest => .ok (s, rest)
    | _ => .error .malformed
  | field :: fields, isFirst, s, cs => do
    let (more, rest) ← nextItem isFirst cs
    if more then do
      let (put, rest) ← field.value rest
      positions fields false (put s) rest
    else .ok (s, rest)

/-- An object with known members over a starting value, or the array of its members in order. -/
def record {σ : Type} (fields : List (Field σ)) (start : σ) : Reader σ := fun cs =>
  match skipGap cs with
  | '[' :: rest => positions fields true start rest
  | '\x7b' :: rest => members fields (rest.length + 1) true [] start rest
  | rest => .error (refuse rest)

/-- A text that holds one value and nothing else. -/
def read {α : Type} (value : Reader α) (text : String) : Except Fault α := do
  let (a, rest) ← value text.toList
  match skipGap rest with
  | [] => .ok a
  | _ :: _ => .error .malformed

/-! ## Values of any type -/

/-- The members of an object whose brace has been read, with values of one type. `fuel` bounds
their number. -/
def namedItems {α : Type} (item : Reader α) : Nat → Bool → Reader (List (String × α))
  | 0, _, _ => .error .truncated
  | fuel + 1, isFirst, cs => do
    match ← nextName isFirst cs with
    | (none, rest) => .ok ([], rest)
    | (some name, rest) => do
      let (_, rest) ← colon rest
      let (a, rest) ← item rest
      let (more, rest) ← namedItems item fuel false rest
      .ok ((name, a) :: more, rest)

/-- A value of any type. `fuel` bounds its depth. -/
def anyValue : Nat → Reader Json
  | 0, _ => .error .truncated
  | fuel + 1, cs =>
    match skipGap cs with
    | [] => .error .truncated
    | c :: rest =>
      if c = 'n' then do
        let (_, rest) ← word "ull".toList rest
        .ok (.null, rest)
      else if c = 't' then do
        let (_, rest) ← word "rue".toList rest
        .ok (.bool true, rest)
      else if c = 'f' then do
        let (_, rest) ← word "alse".toList rest
        .ok (.bool false, rest)
      else if c = '-' || c.isDigit then do
        let (n, rest) ← heldNumeral (c :: rest)
        .ok (.number n.text, rest)
      else if c = '\x22' then do
        let (s, rest) ← quoted rest
        .ok (.string s, rest)
      else if c = '[' then do
        let (vs, rest) ← items (anyValue fuel) (rest.length + 1) true rest
        .ok (.array vs, rest)
      else if c = '\x7b' then do
        let (ms, rest) ← namedItems (anyValue fuel) (rest.length + 1) true rest
        .ok (.object ms, rest)
      else .error .malformed

end Reader

/-- The value that a text holds. -/
def parse (text : String) : Except Fault Json :=
  Reader.read (fun cs => Reader.anyValue (cs.length + 1) cs) text

end VideoCatalog.Json
