import VideoCatalog.Text.Blank

/-!
Writing XML text.

`escape` puts a text into a document so that reading gives it back: markup characters and carriage
returns become references, and a character that XML 1.0 cannot carry is replaced by U+FFFD.
`Markup` is the shape of the documents written here: lines indented by two blanks a level, each
holding a start tag, an end tag, an empty element or a leaf with its text.
-/

namespace VideoCatalog.Xml

/-- The characters that an XML 1.0 document can hold. -/
def isXmlChar (c : Char) : Bool :=
  let n := c.toNat
  n = 0x9 || n = 0xA || n = 0xD || (0x20 ≤ n && n ≤ 0xD7FF) || (0xE000 ≤ n && n ≤ 0xFFFD) ||
    (0x10000 ≤ n && n ≤ 0x10FFFF)

/-- The place of a text in a document. -/
inductive Place where
  /-- Between tags. -/
  | content
  /-- Inside an attribute value between double quotes. -/
  | attribute
  deriving DecidableEq

/-- A character as it is written at a place. -/
def escapeChar (place : Place) (c : Char) : List Char :=
  if c = '&' then "&amp;".toList
  else if c = '<' then "&lt;".toList
  else if c = '>' then "&gt;".toList
  else if c = '\x22' && place = .attribute then "&quot;".toList
  else if c = '\r' then "&#13;".toList
  else if isXmlChar c then [c]
  else ['\ufffd']

/-- A text as it is written at a place. -/
def escape (place : Place) (s : String) : String :=
  String.ofList (s.toList.flatMap (escapeChar place))

/-- One attribute with the blank in front of it. -/
def attributeText (name value : String) : String :=
  " " ++ name ++ "=\"" ++ escape .attribute value ++ "\""

/-- A document part to be written on lines of its own. -/
inductive Markup where
  /-- An element that holds text alone. -/
  | leaf (name text : String)
  /-- An element that holds nothing. -/
  | empty (name : String)
  /-- An element that holds other parts; `uri` is declared as its default namespace. -/
  | block (name : String) (uri : Option String) (content : List Markup)

namespace Markup

/-- The blanks in front of a line. -/
def indent (depth : Nat) : String :=
  String.ofList (List.replicate (2 * depth) ' ')

/-- The declaration of a default namespace. -/
def namespaceText : Option String → String
  | some uri => attributeText "xmlns" uri
  | none => ""

mutual
/-- The lines of a part. -/
def text (depth : Nat) : Markup → String
  | .leaf name value =>
    indent depth ++ "<" ++ name ++ ">" ++ escape .content value ++ "</" ++ name ++ ">\n"
  | .empty name => indent depth ++ "<" ++ name ++ "/>\n"
  | .block name uri content =>
    indent depth ++ "<" ++ name ++ namespaceText uri ++ ">\n" ++ texts (depth + 1) content ++
      indent depth ++ "</" ++ name ++ ">\n"

/-- The lines of several parts. -/
def texts (depth : Nat) : List Markup → String
  | [] => ""
  | part :: parts => text depth part ++ texts depth parts
end

/-- A whole document: the declaration, then the root element. -/
def document (root : Markup) : String :=
  "<?xml version=\"1.0\" encoding=\"UTF-8\"?>\n" ++ text 0 root

end Markup

end VideoCatalog.Xml
