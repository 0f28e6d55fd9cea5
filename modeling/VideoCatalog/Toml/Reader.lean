import VideoCatalog.Json.Reader
import VideoCatalog.Toml.Scalar

/-!
Reading a TOML document. Blanks, comments and line ends may stand between the parts of an array or
an inline table, and a comma may follow the last part; a key, its `=` and the beginning of its value
share a line.
-/

namespace VideoCatalog.Toml

/-- Reads something off the front of the characters and returns it with those after it. -/
abbrev Reader (α : Type) := List Char → Option (α × List Char)

/-- Blanks within a line. -/
def isGap (c : Char) : Bool :=
  c = ' ' || c = '\t'

/-- The characters from the next part of the line on. -/
def skipGap (cs : List Char) : List Char :=
  cs.dropWhile isGap

/-- Whether a character must not stand in comments and in texts on one line. -/
def isControl (c : Char) : Bool :=
  (c.toNat < 0x20 && c ≠ '\t') || c.toNat = 0x7F

/-- What follows a comment, if one begins here. -/
def skipComment (cs : List Char) : Option (List Char) :=
  match cs with
  | '#' :: rest =>
    let rest := rest.dropWhile (fun c => !isControl c)
    match rest with
    | [] => some []
    | '\n' :: _ => some rest
    | '\r' :: '\n' :: _ => some rest
    | _ => none
  | _ => some cs

/-- What follows the end of a line, after blanks and a comment; the text may end as well. -/
def endOfLine (cs : List Char) : Option (List Char) := do
  match ← skipComment (skipGap cs) with
  | [] => some []
  | '\n' :: rest => some rest
  | '\r' :: '\n' :: rest => some rest
  | _ => none

/-- What follows any number of blanks, comments and line ends. `fuel` bounds the number of lines. -/
def skipLines : Nat → List Char → Option (List Char)
  | 0, _ => none
  | fuel + 1, cs => do
    match ← skipComment (skipGap cs) with
    | '\n' :: rest => skipLines fuel rest
    | '\r' :: '\n' :: rest => skipLines fuel rest
    | rest => some rest

/-- What follows the blanks, comments and line ends at the front. -/
def skipAll (cs : List Char) : Option (List Char) :=
  skipLines (cs.length + 1) cs

/-! ## Texts -/

/-- The character with the code that so many hexadecimal digits give. -/
def codePoint (count : Nat) : Reader Char := fun cs => do
  let digits := cs.take count
  let values ← digits.mapM Json.Reader.hexValue?
  if values.length < count then none
  else
    let code := values.foldl (fun n d => n * 16 + d) 0
    if h : code.isValidChar then some (Char.ofNatAux code h, cs.drop count) else none

/-- The character of an escape whose backslash has been read. -/
def escaped : Reader Char
  | [] => none
  | c :: cs =>
    if c = 'b' then some ('\x08', cs)
    else if c = 't' then some ('\t', cs)
    else if c = 'n' then some ('\n', cs)
    else if c = 'f' then some ('\x0c', cs)
    else if c = 'r' then some ('\r', cs)
    else if c = 'e' then some ('\x1b', cs)
    else if c = '\x22' then some ('\x22', cs)
    else if c = '\x5c' then some ('\x5c', cs)
    else if c = 'x' then codePoint 2 cs
    else if c = 'u' then codePoint 4 cs
    else if c = 'U' then codePoint 8 cs
    else none

/-- A text on one line whose opening quote has been read. `fuel` bounds its length. -/
def basicChars : Nat → Reader (List Char)
  | 0, _ => none
  | _ + 1, [] => none
  | fuel + 1, c :: cs =>
    if c = '\x22' then some ([], cs)
    else if c = '\x5c' then do
      let (d, rest) ← escaped cs
      let (ds, rest) ← basicChars fuel rest
      some (d :: ds, rest)
    else if isControl c then none
    else do
      let (ds, rest) ← basicChars fuel cs
      some (c :: ds, rest)

/-- A text on one line, taken as it is, whose opening quote has been read. -/
def literalChars (cs : List Char) : Option (List Char × List Char) :=
  let inside := cs.takeWhile (fun c => c ≠ '\x27')
  match cs.drop inside.length with
  | _ :: rest => if inside.any isControl then none else some (inside, rest)
  | [] => none

/-- Up to two quotes may stand in front of the three that end a text of several lines: the quotes
that belong to the text, and what follows the end. -/
def closingQuotes? (quote : Char) (cs : List Char) : Option (List Char × List Char) :=
  let quotes := (cs.take 5).takeWhile (fun c => c = quote)
  if quotes.length < 3 then none
  else some (quotes.drop 3, cs.drop quotes.length)

/-- What follows a backslash at the end of a line: the text goes on at the next character that is
no blank. -/
def continued? (cs : List Char) : Option (List Char) :=
  match skipGap cs with
  | '\n' :: rest => some (rest.dropWhile (fun c => isGap c || c = '\n' || c = '\r'))
  | '\r' :: '\n' :: rest => some (rest.dropWhile (fun c => isGap c || c = '\n' || c = '\r'))
  | _ => none

/-- A text of several lines up to its end; escapes count if `escapes` says so. `fuel` bounds its
length. -/
def multilineChars (quote : Char) (escapes : Bool) : Nat → Reader (List Char)
  | 0, _ => none
  | _ + 1, [] => none
  | fuel + 1, c :: cs =>
    match closingQuotes? quote (c :: cs) with
    | some (inside, rest) => some (inside, rest)
    | none =>
      if escapes && c = '\x5c' then
        match continued? cs with
        | some rest => multilineChars quote escapes fuel rest
        | none => do
          let (d, rest) ← escaped cs
          let (ds, rest) ← multilineChars quote escapes fuel rest
          some (d :: ds, rest)
      else if c = '\r' then
        match cs with
        | '\n' :: rest => do
          let (ds, rest) ← multilineChars quote escapes fuel rest
          some ('\n' :: ds, rest)
        | _ => none
      else if c ≠ '\n' && isControl c then none
      else do
        let (ds, rest) ← multilineChars quote escapes fuel cs
        some (c :: ds, rest)

/-- A text of several lines without the line end that may stand right behind its opening. -/
def multiline (quote : Char) (escapes : Bool) : Reader (List Char) := fun cs =>
  let cs :=
    match cs with
    | '\n' :: rest => rest
    | '\r' :: '\n' :: rest => rest
    | _ => cs
  multilineChars quote escapes (cs.length + 1) cs

/-- A text between quotes, if one begins here. -/
def quotedText? (cs : List Char) : Option (List Char × List Char) :=
  match cs with
  | '\x22' :: '\x22' :: '\x22' :: rest => multiline '\x22' true rest
  | '\x22' :: rest => basicChars (rest.length + 1) rest
  | '\x27' :: '\x27' :: '\x27' :: rest => multiline '\x27' false rest
  | '\x27' :: rest => literalChars rest
  | _ => none

/-! ## Keys -/

/-- A character of a key without quotes. -/
def isKeyChar (c : Char) : Bool :=
  c.isAlphanum || c = '_' || c = '-'

/-- One part of a key; a text of several lines is none. -/
def simpleKey : Reader String := fun cs =>
  match cs with
  | '\x22' :: rest => (basicChars (rest.length + 1) rest).map (fun p => (String.ofList p.1, p.2))
  | '\x27' :: rest => (literalChars rest).map (fun p => (String.ofList p.1, p.2))
  | _ =>
    let key := cs.takeWhile isKeyChar
    if key.isEmpty then none else some (String.ofList key, cs.drop key.length)

/-- A key: the parts in front of the last one, and the last one. `fuel` bounds their number. -/
def dottedKey : Nat → Reader (List String × String)
  | 0, _ => none
  | fuel + 1, cs => do
    let (key, rest) ← simpleKey (skipGap cs)
    match skipGap rest with
    | '.' :: rest => do
      let ((path, last), rest) ← dottedKey fuel rest
      some ((key :: path, last), rest)
    | rest => some (([], key), rest)

/-- A key of any number of parts. -/
def key : Reader (List String × String) := fun cs =>
  dottedKey (cs.length + 1) cs

/-! ## Values -/

/-- The characters of a value without quotes or brackets. -/
def isScalarChar (c : Char) : Bool :=
  c.isAlphanum || c = '_' || c = '-' || c = '+' || c = '.' || c = ':'

/-- A value without quotes or brackets; a blank may stand between a date and its time. -/
def scalar : Reader Value := fun cs => do
  let run := cs.takeWhile isScalarChar
  let rest := cs.drop run.length
  match rest with
  | ' ' :: d :: _ =>
    if d.isDigit && date? run = some [] then
      let more := (rest.drop 1).takeWhile isScalarChar
      let v ← scalar? (run ++ ' ' :: more)
      some (v, rest.drop (more.length + 1))
    else
      let v ← scalar? run
      some (v, rest)
  | _ =>
    let v ← scalar? run
    some (v, rest)

/-- The items of an array whose bracket has been read. `fuel` bounds their number. -/
def items (item : Reader Value) : Nat → Reader (List Value)
  | 0, _ => none
  | fuel + 1, cs => do
    match ← skipAll cs with
    | ']' :: rest => some ([], rest)
    | rest => do
      let (v, rest) ← item rest
      match ← skipAll rest with
      | ',' :: rest => do
        let (vs, rest) ← items item fuel rest
        some (v :: vs, rest)
      | ']' :: rest => some ([v], rest)
      | _ => none

/-- A key, its `=` and its value. -/
def assignment (item : Reader Value) : Reader ((List String × String) × Value) := fun cs => do
  let (k, rest) ← key cs
  match rest with
  | '=' :: rest => do
    let (v, rest) ← item (skipGap rest)
    some ((k, v), rest)
  | _ => none

/-- The members of an inline table whose brace has been read. `fuel` bounds their number. -/
def inlineMembers (item : Reader Value) : Nat → Members → Reader Members
  | 0, _, _ => none
  | fuel + 1, ms, cs => do
    match ← skipAll cs with
    | '\x7d' :: rest => some (ms, rest)
    | rest => do
      let (((path, k), v), rest) ← assignment item rest
      let ms ← ms.addAt path k v .inline
      match ← skipAll rest with
      | ',' :: rest => inlineMembers item fuel ms rest
      | '\x7d' :: rest => some (ms, rest)
      | _ => none

/-- A value; arrays and inline tables may be nested `depth` deep. -/
def value (depth : Nat) : Reader Value := fun cs =>
  match cs with
  | [] => none
  | c :: rest =>
    if c = '\x22' || c = '\x27' then
      (quotedText? cs).map (fun p => (.string (String.ofList p.1), p.2))
    else if c = '[' then
      match depth with
      | 0 => none
      | depth + 1 => do
        let (vs, rest) ← items (value depth) (rest.length + 1) rest
        some (.array vs, rest)
    else if c = '\x7b' then
      match depth with
      | 0 => none
      | depth + 1 => do
        let (ms, rest) ← inlineMembers (value depth) (rest.length + 1) [] rest
        some (.table .inline ms, rest)
    else scalar cs

/-! ## Documents -/

/-- How deep arrays and inline tables may be nested. -/
def depthLimit : Nat := 80

/-- A header whose first bracket has been read: its key, and whether it has double brackets. -/
def header : Reader (Bool × List String × String) := fun cs => do
  let (isNext, cs) : Bool × List Char :=
    match cs with
    | '[' :: rest => (true, rest)
    | _ => (false, cs)
  let ((path, k), rest) ← key cs
  match isNext, rest with
  | false, ']' :: rest => some ((false, path, k), rest)
  | true, ']' :: ']' :: rest => some ((true, path, k), rest)
  | _, _ => none

/-- The lines of a document from one line on; `place` is the path of the table that is open. `fuel`
bounds the number of lines. -/
def lines : Nat → List String → Members → List Char → Option Members
  | 0, _, _, _ => none
  | fuel + 1, place, ms, cs => do
    match ← skipAll cs with
    | [] => some ms
    | '[' :: rest => do
      let ((isNext, path, k), rest) ← header rest
      let opens := if isNext then Members.openNextTable k else Members.openTable k
      let ms ← ms.changeAt false (fun _ inner => opens inner) path .header
      let rest ← endOfLine rest
      lines fuel (path ++ [k]) ms rest
    | rest => do
      let (((path, k), v), rest) ← assignment (value depthLimit) rest
      let ms ← ms.changeAt false (fun origin inner => inner.addAt path k v origin) place .header
      let rest ← endOfLine rest
      lines fuel place ms rest

/-- The members of the table that a document is. -/
def parse? (text : String) : Option Members :=
  let cs :=
    match text.toList with
    | c :: cs => if c.toNat = 0xFEFF then cs else c :: cs
    | [] => []
  lines (cs.length + 1) [] [] cs

end VideoCatalog.Toml
