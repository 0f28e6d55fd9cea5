import VideoCatalog.Text.Blank

/-!
JSON values and their two written forms: on one line without blanks, and indented by two blanks a
level. Numbers are kept as their numerals, so a value is written as it was read.
-/

namespace VideoCatalog

/-- A JSON value; the members of an object are in the order in which they are written. -/
inductive Json where
  | null
  | bool (b : Bool)
  | number (numeral : String)
  | string (s : String)
  | array (items : List Json)
  | object (members : List (String × Json))

namespace Json

/-- The numeral of an integer. -/
def ofInt (i : Int) : Json :=
  .number (toString i)

/-- The numeral of a natural number. -/
def ofNat (n : Nat) : Json :=
  .number (toString n)

/-- An optional value, `null` when absent. -/
def ofOption {α : Type} (toJson : α → Json) : Option α → Json
  | some a => toJson a
  | none => .null

/-- An array of texts. -/
def ofStrings (texts : List String) : Json :=
  .array (texts.map .string)

/-- The value of the last member of that name; a repeated name counts once, with its last value. -/
def get? (name : String) : Json → Option Json
  | .object members => (members.reverse.find? (fun m => m.1 == name)).map Prod.snd
  | _ => none

/-- One hexadecimal digit, in lower case. -/
def hexDigit (n : Nat) : Char :=
  if n < 10 then Char.ofNat (48 + n) else Char.ofNat (87 + n)

/-- A character between quotes: quotes, backslashes and control characters are escaped. -/
def escapeChar (c : Char) : List Char :=
  let code := c.toNat
  if code = 0x22 then ['\x5c', '\x22']
  else if code = 0x5C then ['\x5c', '\x5c']
  else if code = 0x8 then ['\x5c', 'b']
  else if code = 0x9 then ['\x5c', 't']
  else if code = 0xA then ['\x5c', 'n']
  else if code = 0xC then ['\x5c', 'f']
  else if code = 0xD then ['\x5c', 'r']
  else if code < 0x20 then ['\x5c', 'u', '0', '0', hexDigit (code / 16), hexDigit (code % 16)]
  else [c]

/-- A text between quotes. -/
def quote (s : String) : String :=
  "\"" ++ String.ofList (s.toList.flatMap escapeChar) ++ "\""

mutual
/-- A value on one line. -/
def compact : Json → String
  | .null => "null"
  | .bool true => "true"
  | .bool false => "false"
  | .number numeral => numeral
  | .string s => quote s
  | .array items => "[" ++ Text.joinWith "," (compactItems items) ++ "]"
  | .object members => "\x7b" ++ Text.joinWith "," (compactMembers members) ++ "\x7d"

/-- The items of an array, each on one line. -/
def compactItems : List Json → List String
  | [] => []
  | item :: items => compact item :: compactItems items

/-- The members of an object, each on one line. -/
def compactMembers : List (String × Json) → List String
  | [] => []
  | (name, value) :: members => (quote name ++ ":" ++ compact value) :: compactMembers members
end

/-- The blanks in front of a line at a level of nesting. -/
def indent (level : Nat) : String :=
  String.ofList (List.replicate (2 * level) ' ')

mutual
/-- A value with one entry a line; an empty array or object stays on its line. -/
def prettyAt (level : Nat) : Json → String
  | .null => "null"
  | .bool true => "true"
  | .bool false => "false"
  | .number numeral => numeral
  | .string s => quote s
  | .array items =>
    if items.isEmpty then "[]"
    else "[\n" ++ Text.joinWith ",\n" (prettyItems (level + 1) items) ++ "\n" ++ indent level ++ "]"
  | .object members =>
    if members.isEmpty then "\x7b\x7d"
    else
      "\x7b\n" ++ Text.joinWith ",\n" (prettyMembers (level + 1) members) ++ "\n" ++
        indent level ++ "\x7d"

/-- The items of an array, each on lines of its own. -/
def prettyItems (level : Nat) : List Json → List String
  | [] => []
  | item :: items => (indent level ++ prettyAt level item) :: prettyItems level items

/-- The members of an object, each on lines of its own. -/
def prettyMembers (level : Nat) : List (String × Json) → List String
  | [] => []
  | (name, value) :: members =>
    (indent level ++ quote name ++ ": " ++ prettyAt level value) :: prettyMembers level members
end

/-- A value with one entry a line, starting at the left margin. -/
def pretty (v : Json) : String :=
  prettyAt 0 v

end Json

end VideoCatalog
