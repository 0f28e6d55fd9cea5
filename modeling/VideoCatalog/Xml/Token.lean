import VideoCatalog.Text.Ranges
import VideoCatalog.Xml.Markup

/-!
The pieces of an XML 1.0 text: start tags with their attribute values, end tags, and runs of
character data. Line ends are made uniform first; comments, processing instructions and the document
type are passed over. References are resolved where they stand for a character; there are no others.
-/

namespace VideoCatalog.Xml

/-- A piece of a document. -/
inductive Token where
  /-- A start tag, the line on which it ends, and whether it is an end tag as well. -/
  | start (name : String) (attributes : List (String × String)) (line : Nat) (closed : Bool)
  /-- An end tag. -/
  | finish (name : String)
  /-- Character data. -/
  | text (s : List Char)
  deriving DecidableEq

/-- The line on which a text stops being XML. -/
structure Malformed where
  line : Nat
  deriving DecidableEq

/-! ## Characters -/

/-- The text with every line end written as one line feed. -/
def normalizeLines : List Char → List Char
  | '\r' :: '\n' :: cs => '\n' :: normalizeLines cs
  | '\r' :: cs => '\n' :: normalizeLines cs
  | c :: cs => c :: normalizeLines cs
  | [] => []

/-- Code points that a name can begin with. -/
def nameStartRanges : List (Nat × Nat) :=
  [(0x3A, 0x3A), (0x41, 0x5A), (0x5F, 0x5F), (0x61, 0x7A), (0xC0, 0xD6), (0xD8, 0xF6),
    (0xF8, 0x2FF), (0x370, 0x37D), (0x37F, 0x1FFF), (0x200C, 0x200D), (0x2070, 0x218F),
    (0x2C00, 0x2FEF), (0x3001, 0xD7FF), (0xF900, 0xFDCF), (0xFDF0, 0xFFFD), (0x10000, 0xEFFFF)]

/-- Code points that can only continue a name. -/
def nameTailRanges : List (Nat × Nat) :=
  [(0x2D, 0x2E), (0x30, 0x39), (0xB7, 0xB7), (0x300, 0x36F), (0x203F, 0x2040)]

/-- Whether a name can begin with a character. -/
def isNameStart (c : Char) : Bool :=
  Text.inRanges nameStartRanges c.toNat

/-- Whether a name can hold a character. -/
def isNameChar (c : Char) : Bool :=
  isNameStart c || Text.inRanges nameTailRanges c.toNat

/-- The white space between the parts of a tag. -/
def isGap (c : Char) : Bool :=
  c = ' ' || c = '\t' || c = '\n' || c = '\r'

/-- The value of a row of digits in a base. -/
def digitsIn? (base : Nat) (cs : List Char) : Option Nat :=
  if cs.isEmpty then none
  else
    cs.foldlM (fun n c =>
      let code := c.toNat
      let digit :=
        if 48 ≤ code && code ≤ 57 then code - 48
        else if 97 ≤ code && code ≤ 102 then code - 87
        else if 65 ≤ code && code ≤ 70 then code - 55
        else base
      if digit < base then some (n * base + digit) else none) 0

/-- The character with a code point, if documents can hold it. -/
def charOfCode? (code : Nat) : Option Char :=
  if h : code.isValidChar then
    let c := Char.ofNatAux code h
    if isXmlChar c then some c else none
  else none

/-- The character that a reference stands for, given what is between `&` and `;`. -/
def referenced? (name : List Char) : Option Char :=
  match name with
  | ['l', 't'] => some '<'
  | ['g', 't'] => some '>'
  | ['a', 'm', 'p'] => some '&'
  | ['q', 'u', 'o', 't'] => some '\x22'
  | ['a', 'p', 'o', 's'] => some '\x27'
  | '#' :: 'x' :: digits => (digitsIn? 16 digits).bind charOfCode?
  | '#' :: digits => (digitsIn? 10 digits).bind charOfCode?
  | _ => none

/-- The text with its references resolved. `literal` says what a character outside references
becomes; `pending` holds the characters of a reference that has begun, last one first. -/
def resolve (literal : Char → Option Char) : Option (List Char) → List Char → Option (List Char)
  | none, [] => some []
  | some _, [] => none
  | none, c :: cs =>
    if c = '&' then resolve literal (some []) cs
    else
      match literal c, resolve literal none cs with
      | some d, some ds => some (d :: ds)
      | _, _ => none
  | some name, c :: cs =>
    if c = ';' then
      match referenced? name.reverse, resolve literal none cs with
      | some d, some ds => some (d :: ds)
      | _, _ => none
    else resolve literal (some (c :: name)) cs

/-- What a character between the quotes of an attribute becomes: white space is a blank. -/
def attributeLiteral (c : Char) : Option Char :=
  if c = '<' then none
  else if isGap c then some ' '
  else if isXmlChar c then some c
  else none

/-- The value of an attribute, given what is between its quotes. -/
def attributeValue? (raw : List Char) : Option (List Char) :=
  resolve attributeLiteral none raw

/-- What a character between tags becomes. -/
def contentLiteral (c : Char) : Option Char :=
  if c ≠ '<' && isXmlChar c then some c else none

/-- Character data, given what is between two tags. -/
def contentText? (raw : List Char) : Option (List Char) :=
  resolve contentLiteral none raw

/-! ## Tags -/

/-- The characters before the first occurrence of a pattern, and those after it. -/
def upTo? (stop : List Char) : List Char → Option (List Char × List Char)
  | [] => if stop.isEmpty then some ([], []) else none
  | c :: cs =>
    if stop.isPrefixOf (c :: cs) then some ([], (c :: cs).drop stop.length)
    else (upTo? stop cs).map (fun p => (c :: p.1, p.2))

/-- The line reached after some characters. -/
def lineAfter (line : Nat) (passed : List Char) : Nat :=
  line + passed.count '\n'

/-- A name and the characters behind it. -/
def name? (cs : List Char) : Option (String × List Char) :=
  match cs with
  | c :: _ =>
    if isNameStart c then
      some (String.ofList (cs.takeWhile isNameChar), cs.dropWhile isNameChar)
    else none
  | [] => none

/-- One attribute: its name, its value, what it passed over, and the characters behind it. -/
def attribute? (cs : List Char) : Option (String × String × List Char × List Char) := do
  let (name, rest) ← name? cs
  match rest.dropWhile isGap with
  | '=' :: rest =>
    match rest.dropWhile isGap with
    | quote :: rest =>
      if quote = '\x22' || quote = '\x27' then
        let (raw, rest) ← upTo? [quote] rest
        let value ← attributeValue? raw
        some (name, String.ofList value, raw, rest)
      else none
    | [] => none
  | _ => none

/-- The attributes of a start tag whose name has been read, up to its end: the attributes, the line
of the end, whether the tag is closed at once, and the characters behind it. `fuel` bounds the
number of attributes. -/
def attributes? : Nat → Nat → List Char →
    Option (List (String × String) × Nat × Bool × List Char)
  | 0, _, _ => none
  | fuel + 1, line, cs =>
    let line := lineAfter line (cs.takeWhile isGap)
    match cs.dropWhile isGap with
    | '>' :: rest => some ([], line, false, rest)
    | '/' :: '>' :: rest => some ([], line, true, rest)
    | rest =>
      if (cs.takeWhile isGap).isEmpty then none
      else
        match attribute? rest with
        | none => none
        | some (name, value, raw, rest) =>
          match attributes? fuel (lineAfter line raw) rest with
          | none => none
          | some (more, line, closed, rest) =>
            if more.any (fun a => a.1 = name) then none
            else some ((name, value) :: more, line, closed, rest)

/-- What stands at the front of a text: a piece that carries meaning, or one that does not, with
the line and the characters behind it. -/
structure Step where
  token : Option Token
  line : Nat
  rest : List Char

/-- Passes over what begins with `opening` and ends with `ending`. -/
def passOver? (line : Nat) (cs : List Char) (opening ending : String) : Option Step := do
  let (inside, rest) ← upTo? ending.toList (cs.drop opening.length)
  some { token := none, line := lineAfter line inside, rest := rest }

/-- The rest of a document type: its internal part stands between brackets. -/
def documentType? (line : Nat) (cs : List Char) : Option Step := do
  let (outside, rest) ← upTo? ['>'] cs
  if outside.contains '[' then
    let (inside, rest) ← upTo? [']'] cs
    let (tail, rest) ← upTo? ['>'] rest
    some { token := none, line := lineAfter (lineAfter line inside) tail, rest := rest }
  else some { token := none, line := lineAfter line outside, rest := rest }

/-- The piece that begins with the `<` at the front of the characters. -/
def markup? (line : Nat) (cs : List Char) : Option Step :=
  if "<!--".toList.isPrefixOf cs then passOver? line cs "<!--" "-->"
  else if "<?".toList.isPrefixOf cs then passOver? line cs "<?" "?>"
  else if "<![CDATA[".toList.isPrefixOf cs then do
    let (inside, rest) ← upTo? "]]>".toList (cs.drop 9)
    if inside.all isXmlChar then
      some { token := some (.text inside), line := lineAfter line inside, rest := rest }
    else none
  else if "<!DOCTYPE".toList.isPrefixOf cs then documentType? line (cs.drop 9)
  else if "</".toList.isPrefixOf cs then do
    let (name, rest) ← name? (cs.drop 2)
    match rest.dropWhile isGap with
    | '>' :: after =>
      some {
        token := some (.finish name)
        line := lineAfter line (rest.takeWhile isGap)
        rest := after }
    | _ => none
  else do
    let (name, rest) ← name? (cs.drop 1)
    let (attributes, line, closed, rest) ← attributes? (rest.length + 1) line rest
    some { token := some (.start name attributes line closed), line := line, rest := rest }

/-- The run of character data at the front of the characters. -/
def run? (line : Nat) (cs : List Char) : Option Step := do
  let raw := cs.takeWhile (fun c => c ≠ '<')
  if (upTo? "]]>".toList raw).isSome then none
  else
    let text ← contentText? raw
    some { token := some (.text text), line := lineAfter line raw, rest := cs.drop raw.length }

/-- The pieces of a text in order. `fuel` bounds their number. -/
def tokensFrom : Nat → Nat → List Char → Except Malformed (List Token)
  | _, _, [] => .ok []
  | 0, line, _ :: _ => .error { line := line }
  | fuel + 1, line, c :: cs =>
    match if c = '<' then markup? line (c :: cs) else run? line (c :: cs) with
    | none => .error { line := line }
    | some step => do
      let tokens ← tokensFrom fuel step.line step.rest
      .ok (step.token.toList ++ tokens)

/-- The pieces of a text in order. -/
def tokens (text : String) : Except Malformed (List Token) :=
  let cs := normalizeLines text.toList
  tokensFrom (cs.length + 1) 1 cs

end VideoCatalog.Xml
