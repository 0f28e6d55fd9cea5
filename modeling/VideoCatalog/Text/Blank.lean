/-!
White space as Unicode has it, and the two things the catalogue does with it: trimming the ends of
a text and taking a text apart at a separator.

`Text.trim` is the one notion of trimming in the library: diagnostics, numbers in documents,
occurrence bounds and settings in the environment all go through it.
-/

namespace VideoCatalog.Text

/-- The code points with the property `White_Space`. -/
def blankCodes : List Nat :=
  [0x9, 0xA, 0xB, 0xC, 0xD, 0x20, 0x85, 0xA0, 0x1680, 0x2000, 0x2001, 0x2002, 0x2003, 0x2004,
    0x2005, 0x2006, 0x2007, 0x2008, 0x2009, 0x200A, 0x2028, 0x2029, 0x202F, 0x205F, 0x3000]

/-- White space in the sense of the property `White_Space`. -/
def isBlank (c : Char) : Bool :=
  blankCodes.contains c.toNat

/-- The characters left when leading white space is dropped. -/
def trimStart (cs : List Char) : List Char :=
  cs.dropWhile isBlank

/-- The characters left when trailing white space is dropped. -/
def trimEnd (cs : List Char) : List Char :=
  (cs.reverse.dropWhile isBlank).reverse

/-- A list of characters without the white space at its two ends. -/
def trimChars (cs : List Char) : List Char :=
  trimEnd (trimStart cs)

/-- A text without the white space at its two ends. -/
def trim (s : String) : String :=
  String.ofList (trimChars s.toList)

/-- The pieces between the separators; a list without a separator is one piece. -/
def splitList {α : Type} [DecidableEq α] (separator : α) : List α → List (List α)
  | [] => [[]]
  | c :: rest =>
    if c = separator then [] :: splitList separator rest
    else
      match splitList separator rest with
      | piece :: pieces => (c :: piece) :: pieces
      | [] => [[c]]

/-- The pieces of a text between the separators. -/
def split (separator : Char) (s : String) : List String :=
  (splitList separator s.toList).map String.ofList

/-- The entries of a comma-separated list: trimmed, and without the empty ones. -/
def commaList (s : String) : List String :=
  ((split ',' s).map trim).filter (fun piece => !piece.isEmpty)

/-- Texts put one after the other with a separator between them. -/
def joinWith (separator : String) (pieces : List String) : String :=
  String.intercalate separator pieces

end VideoCatalog.Text
