import VideoCatalog.Text.Raw

/-!
Glob patterns: their tokens, what they match, and the reading of a pattern into tokens.

A pattern is matched against the bytes of a path. `?` is one byte and `*` any number of bytes within
a component, `**` any number of components where it stands alone between slashes, `[…]` one byte of
a class and `{…,…}` one of several patterns; a backslash takes the next character for itself.
-/

namespace VideoCatalog.Glob

open RawText (slash)

/-- One part of a pattern. -/
inductive Token where
  | literal (c : Char)
  /-- `?` -/
  | any
  /-- `*` -/
  | star
  /-- `**/` at the front. -/
  | leadingStars
  /-- `/**` at the end. -/
  | trailingStars
  /-- `/**/` in the middle. -/
  | innerStars
  | oneOf (negated : Bool) (ranges : List (Char × Char))
  | alternatives (branches : List (List Token))

/-- Why a pattern cannot be read. -/
inductive Fault where
  | unclosedClass
  | invalidRange (low high : Char)
  | unopenedAlternatives
  | unclosedAlternatives
  | danglingEscape
  deriving DecidableEq

namespace Fault

/-- The wording of the fault. -/
def message : Fault → String
  | .unclosedClass => "unclosed character class; missing ']'"
  | .invalidRange low high =>
    "invalid range; '" ++ String.singleton low ++ "' > '" ++ String.singleton high ++ "'"
  | .unopenedAlternatives =>
    "unopened alternate group; missing '\x7b' (maybe escape '\x7d' with '[\x7d]'?)"
  | .unclosedAlternatives =>
    "unclosed alternate group; missing '\x7d' (maybe escape '\x7b' with '[\x7b]'?)"
  | .danglingEscape => "dangling '\\'"

end Fault

/-! ## Matching -/

/-- The bytes of a character. -/
def charBytes (c : Char) : List UInt8 :=
  (RawText.ofString (String.singleton c)).bytes

/-- All ends of a row of bytes, the row itself first. -/
def ends : List UInt8 → List (List UInt8)
  | [] => [[]]
  | b :: bs => (b :: bs) :: ends bs

/-- The ends that begin right behind a slash. -/
def endsBehindSlash : List UInt8 → List (List UInt8)
  | [] => []
  | b :: bs => if b = slash then bs :: endsBehindSlash bs else endsBehindSlash bs

/-- The ends that are left when any number of bytes of one component is taken off. -/
def endsInComponent : List UInt8 → List (List UInt8)
  | [] => [[]]
  | b :: bs => if b = slash then [b :: bs] else (b :: bs) :: endsInComponent bs

/-- The bytes of a range of characters: those of its two ends, and all between the last byte of the
lower end and the first byte of the upper one. -/
def inRange (r : Char × Char) (b : UInt8) : Bool :=
  if r.1 = r.2 then (charBytes r.1).contains b
  else
    let low := charBytes r.1
    let high := charBytes r.2
    low.contains b || high.contains b ||
      (low.getLastD 0 ≤ b && b ≤ high.headD 0)

/-- The rows with each length at most once. -/
def distinctLengths : List Nat → List (List UInt8) → List (List UInt8)
  | _, [] => []
  | seen, bs :: rest =>
    if seen.contains bs.length then distinctLengths seen rest
    else bs :: distinctLengths (bs.length :: seen) rest

mutual
/-- Whether a token stands for nothing at all. -/
def Token.isVoid : Token → Bool
  | .alternatives branches => allVoid branches
  | _ => false

/-- Whether all tokens stand for nothing. -/
def tokensVoid : List Token → Bool
  | [] => true
  | t :: ts => t.isVoid && tokensVoid ts

/-- Whether all branches stand for nothing. -/
def allVoid : List (List Token) → Bool
  | [] => true
  | b :: bs => tokensVoid b && allVoid bs
end

mutual
/-- What may be left of a row of bytes when a token has taken its share. -/
def Token.rests : Token → List UInt8 → List (List UInt8)
  | .literal c, bs =>
    let cs := charBytes c
    if cs.isPrefixOf bs then [bs.drop cs.length] else []
  | .any, bs =>
    match bs with
    | b :: rest => if b = slash then [] else [rest]
    | [] => []
  | .star, bs => endsInComponent bs
  | .leadingStars, bs => bs :: endsBehindSlash bs
  | .trailingStars, bs =>
    match bs with
    | b :: rest => if b = slash then ends rest else []
    | [] => []
  | .innerStars, bs =>
    match bs with
    | b :: rest => if b = slash then rest :: endsBehindSlash rest else []
    | [] => []
  | .oneOf negated ranges, bs =>
    match bs with
    | b :: rest => if ranges.any (fun r => inRange r b) != negated then [rest] else []
    | [] => []
  | .alternatives branches, bs =>
    if allVoid branches then [bs] else restsOfBranches branches bs

/-- What may be left when the tokens have taken their shares one after the other. -/
def restsOfTokens : List Token → List (List UInt8) → List (List UInt8)
  | [], rows => rows
  | t :: ts, rows => restsOfTokens ts (distinctLengths [] (rows.flatMap t.rests))

/-- What may be left when one of the branches has taken its share; branches that stand for nothing
do not count. -/
def restsOfBranches : List (List Token) → List UInt8 → List (List UInt8)
  | [], _ => []
  | branch :: branches, bs =>
    (if tokensVoid branch then [] else restsOfTokens branch [bs]) ++ restsOfBranches branches bs
end

/-- Whether a token stands for itself. -/
def Token.isLiteral : Token → Bool
  | .literal _ => true
  | _ => false

/-- Whether a token is the slash. -/
def Token.isSlash : Token → Bool
  | .literal c => c = '/'
  | _ => false

/-- Whether a pattern spells out the last components of a path: the path as a whole or, behind
`**/`, at least two components. -/
def isSpelledOut : List Token → Bool
  | .leadingStars :: ts => ts.all Token.isLiteral && ts.any Token.isSlash
  | ts => ts.all Token.isLiteral

/-- Whether a pattern is compared with the name of a file that ends in a dot. No path has such a
name: a dot at the end of a path makes it one without a file name. -/
def asksForFinalDot (tokens : List Token) : Bool :=
  match tokens.getLast? with
  | some (.literal '.') => !isSpelledOut tokens
  | _ => false

/-- Whether a pattern matches a whole path. `**` alone matches every path. -/
def accepts (tokens : List Token) (path : RawText) : Bool :=
  match tokens with
  | [.leadingStars] => true
  | _ => !asksForFinalDot tokens && (restsOfTokens tokens [path.bytes]).any List.isEmpty

/-! ## Reading -/

/-- The branches that are being read, innermost group first: those of the group that are complete,
and the tokens of the current one, last token first. -/
structure Group where
  complete : List (List Token) := []
  current : List Token := []

/-- The state of reading: the groups still open, innermost first, the outermost being the pattern
itself, and the character before the next one. -/
structure State where
  groups : List Group := [{}]
  before : Option Char := none

namespace State

/-- The current branch of the innermost group. -/
def tokens (s : State) : List Token :=
  (s.groups.headD {}).current

/-- Whether a group is open. -/
def inGroup (s : State) : Bool :=
  s.groups.length > 1

/-- The state with the tokens of the current branch changed. -/
def withTokens (s : State) (f : List Token → List Token) : State :=
  match s.groups with
  | g :: gs => { s with groups := { g with current := f g.current } :: gs }
  | [] => s

/-- Adds a token. -/
def push (s : State) (t : Token) : State :=
  s.withTokens (fun ts => t :: ts)

/-- Opens a group. -/
def openGroup (s : State) : State :=
  { s with groups := {} :: s.groups }

/-- Begins the next branch of a group; outside a group the comma stands for itself. -/
def nextBranch (s : State) : State :=
  match s.groups with
  | g :: outer :: gs =>
    { s with groups := { complete := g.complete ++ [g.current.reverse] } :: outer :: gs }
  | _ => s.push (.literal ',')

/-- Closes the innermost group. -/
def closeGroup (s : State) : Except Fault State :=
  match s.groups with
  | g :: outer :: gs =>
    let branches := g.complete ++ [g.current.reverse]
    .ok { s with
      groups := { outer with current := .alternatives branches :: outer.current } :: gs }
  | _ => .error .unopenedAlternatives

/-- The state with the last token replaced by the one for `**` between slashes. -/
def mergeStars (s : State) (atEnd : Bool) : State :=
  s.withTokens (fun ts =>
    match ts with
    | .leadingStars :: rest => .leadingStars :: rest
    | .trailingStars :: rest => .trailingStars :: rest
    | _ :: rest => (if atEnd then .trailingStars else .innerStars) :: rest
    | [] => [])

/-- Two stars that mean no more than one. -/
def pushTwoStars (s : State) : State :=
  (s.push .star).push .star

/-- Takes `**` into account, both stars being read; also returns the characters to go on with. -/
def doubleStar (s : State) (rest : List Char) : State × List Char :=
  if s.tokens.isEmpty then
    match rest with
    | [] => (s.push .leadingStars, [])
    | '/' :: after => ({ s.push .leadingStars with before := some '/' }, after)
    | _ => ({ s.pushTwoStars with before := some '*' }, rest)
  else if s.before ≠ some '/' &&
      !(s.inGroup && (s.before = some ',' || s.before = some '\x7b')) then
    ({ s.pushTwoStars with before := some '*' }, rest)
  else
    match rest with
    | [] => (s.mergeStars true, [])
    | '/' :: after => ({ s.mergeStars false with before := some '/' }, after)
    | c :: _ =>
      if s.inGroup && (c = ',' || c = '\x7d') then
        ({ s.mergeStars true with before := some '*' }, rest)
      else ({ s.pushTwoStars with before := some '*' }, rest)

end State

/-- Extends the last range of a class to a character. -/
def extendRange (c : Char) : List (Char × Char) → Except Fault (List (Char × Char))
  | (low, _) :: rest => if c < low then .error (.invalidRange low c) else .ok ((low, c) :: rest)
  | [] => .ok []

/-- The rest of a class: its ranges so far, last first, whether it is at its first character, and
whether a range is open. Also returns the characters behind the closing bracket. -/
def classRanges : List Char → Bool → Bool → List (Char × Char) →
    Except Fault (List (Char × Char) × List Char)
  | [], _, _, _ => .error .unclosedClass
  | c :: cs, isFirst, inRange, ranges =>
    if c = ']' && !isFirst then
      .ok (((if inRange then [('-', '-')] else []) ++ ranges).reverse, cs)
    else if c = '-' && !isFirst && !inRange then classRanges cs false true ranges
    else if inRange then do
      let ranges ← extendRange c ranges
      classRanges cs false false ranges
    else classRanges cs false false ((c, c) :: ranges)

/-- A class whose opening bracket has been read, and the characters behind it. -/
def readClass (cs : List Char) : Except Fault (Token × List Char) := do
  let (negated, cs) : Bool × List Char :=
    match cs with
    | '!' :: rest => (true, rest)
    | '^' :: rest => (true, rest)
    | _ => (false, cs)
  let (ranges, rest) ← classRanges cs true false []
  .ok (.oneOf negated ranges, rest)

/-- Reads the characters of a pattern. `fuel` bounds their number. -/
def readFrom : Nat → State → List Char → Except Fault State
  | 0, s, _ => .ok s
  | _ + 1, s, [] => .ok s
  | fuel + 1, s, c :: cs =>
    let seen (s : State) : State := { s with before := some c }
    if c = '?' then readFrom fuel (seen (s.push .any)) cs
    else if c = '*' then
      match cs with
      | '*' :: rest =>
        let (s, rest) := s.doubleStar rest
        readFrom fuel s rest
      | _ => readFrom fuel (seen (s.push .star)) cs
    else if c = '[' then do
      let (token, rest) ← readClass cs
      readFrom fuel { s.push token with before := some ']' } rest
    else if c = '\x7b' then readFrom fuel (seen s.openGroup) cs
    else if c = '\x7d' then do
      let s ← s.closeGroup
      readFrom fuel (seen s) cs
    else if c = ',' then readFrom fuel (seen s.nextBranch) cs
    else if c = '\x5c' then
      match cs with
      | [] => .error .danglingEscape
      | d :: rest => readFrom fuel { s.push (.literal d) with before := some d } rest
    else readFrom fuel (seen (s.push (.literal c))) cs

/-- The tokens of a pattern. -/
def tokens (pattern : String) : Except Fault (List Token) := do
  let s ← readFrom (pattern.length + 1) {} pattern.toList
  if s.inGroup then .error .unclosedAlternatives else .ok s.tokens.reverse

end VideoCatalog.Glob
