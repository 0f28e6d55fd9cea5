/-!
Bytes as text. Where bytes are no UTF-8, each longest beginning of a character that is not
completed, and each byte that begins none, is replaced by U+FFFD.
-/

namespace VideoCatalog.Text

/-- The shape of a character in bytes. -/
structure Utf8Shape where
  /-- The number of bytes. -/
  length : Nat
  /-- What the first byte adds to the code point, before the bits of the others. -/
  lead : Nat
  /-- The least and the greatest second byte. -/
  low : Nat
  high : Nat

/-- The shape of the character that a byte begins, if it begins one. -/
def utf8Shape? (byte : Nat) : Option Utf8Shape :=
  if byte < 0x80 then some ⟨1, byte, 0x80, 0xBF⟩
  else if byte < 0xC2 then none
  else if byte < 0xE0 then some ⟨2, byte - 0xC0, 0x80, 0xBF⟩
  else if byte = 0xE0 then some ⟨3, 0, 0xA0, 0xBF⟩
  else if byte = 0xED then some ⟨3, byte - 0xE0, 0x80, 0x9F⟩
  else if byte < 0xF0 then some ⟨3, byte - 0xE0, 0x80, 0xBF⟩
  else if byte = 0xF0 then some ⟨4, 0, 0x90, 0xBF⟩
  else if byte < 0xF4 then some ⟨4, byte - 0xF0, 0x80, 0xBF⟩
  else if byte = 0xF4 then some ⟨4, 4, 0x80, 0x8F⟩
  else none

/-- The bytes at the front that go on with a character of a shape. -/
def continuation (shape : Utf8Shape) (bytes : List Nat) : List Nat :=
  match bytes.take (shape.length - 1) with
  | [] => []
  | second :: later =>
    if shape.low ≤ second && second ≤ shape.high then
      second :: later.takeWhile (fun b => 0x80 ≤ b && b ≤ 0xBF)
    else []

/-- The characters of bytes. `fuel` bounds their number. -/
def lossyChars : Nat → List Nat → List Char
  | 0, _ => []
  | _ + 1, [] => []
  | fuel + 1, byte :: bytes =>
    match utf8Shape? byte with
    | none => '\ufffd' :: lossyChars fuel bytes
    | some shape =>
      let tail := continuation shape bytes
      let c :=
        if tail.length + 1 = shape.length then
          Char.ofNat (tail.foldl (fun code b => code * 64 + (b - 0x80)) shape.lead)
        else '\ufffd'
      c :: lossyChars fuel (bytes.drop tail.length)

/-- Bytes as text. -/
def lossy (bytes : ByteArray) : String :=
  String.ofList (lossyChars (bytes.size + 1) (bytes.toList.map UInt8.toNat))

end VideoCatalog.Text
