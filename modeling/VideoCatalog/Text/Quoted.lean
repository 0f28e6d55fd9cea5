import VideoCatalog.Text.Printable

/-!
Texts quoted for display: between double quotes, with everything written out that would not show as
itself. `quoted` is the form for names, `quotedRaw` the form for texts handed to the XML engines.
-/

namespace VideoCatalog.Text

/-- The hexadecimal digits of a number, in lower case and without leading zeros. -/
def hexText (n : Nat) : String :=
  String.ofList (Nat.toDigits 16 n)

/-- A code point written out. -/
def codeText (c : Char) : String :=
  "\\u\x7b" ++ hexText c.toNat ++ "\x7d"

/-- A character as it is displayed between double quotes. -/
def quotedChar (c : Char) : String :=
  if c.toNat = 0 then "\\0"
  else if c = '\t' then "\\t"
  else if c = '\r' then "\\r"
  else if c = '\n' then "\\n"
  else if c = '\x22' then "\\\""
  else if c = '\x5c' then "\\\\"
  else if isExtending c || !isPrintable c then codeText c
  else String.singleton c

/-- A text as it is displayed between double quotes. -/
def quoted (s : String) : String :=
  "\"" ++ String.join (s.toList.map quotedChar) ++ "\""

/-- A character of a text handed to an engine: in the range of ASCII also the single quote is
escaped, and controls are written as bytes. -/
def quotedRawChar (c : Char) : String :=
  let code := c.toNat
  if c = '\x27' then "\\\x27"
  else if code = 0 || c = '\t' || c = '\r' || c = '\n' || 0x80 ≤ code then quotedChar c
  else if code < 0x20 || code = 0x7F then
    "\\x" ++ (if code < 16 then "0" else "") ++ hexText code
  else quotedChar c

/-- A text handed to an engine, as it is displayed between double quotes. -/
def quotedRaw (s : String) : String :=
  "\"" ++ String.join (s.toList.map quotedRawChar) ++ "\""

end VideoCatalog.Text
