/-!
XML documents as the catalogue looks at them: elements with their names, attributes and namespace
declarations, the character data directly inside them, and their element children in order.
Comments and processing instructions carry no meaning here and are left out of the tree.

A `Cursor` is an element together with its place in the document. It knows the elements around it,
and two cursors into one document stand at the same element exactly when their paths agree.
-/

namespace VideoCatalog.Xml

/-- An attribute. `uri` is the namespace that its name belongs to, if any. -/
structure Attribute where
  name : String
  value : String
  qualifier : Option String := none
  uri : Option String := none
  deriving DecidableEq

/-- A declaration that binds a qualifier, or the default namespace, to a URI. -/
structure Declaration where
  qualifier : Option String
  uri : String
  deriving DecidableEq

/-- What a start tag says, and the line on which it stands. -/
structure Tag where
  name : String
  uri : Option String := none
  qualifier : Option String := none
  line : Nat := 1
  attributes : List Attribute := []
  declarations : List Declaration := []
  deriving DecidableEq

/-- An element: its start tag, the character data directly inside it, and its element children. -/
inductive Element where
  | mk (tag : Tag) (text : String) (children : List Element)

/-- A name behind its qualifier. -/
def qualified (qualifier : Option String) (name : String) : String :=
  match qualifier with
  | some q => q ++ ":" ++ name
  | none => name

/-- The part of a name behind its last colon. -/
def localName (name : String) : String :=
  String.ofList ((name.toList.reverse.takeWhile (fun c => c ≠ ':')).reverse)

namespace Element

/-- The start tag. -/
def tag : Element → Tag
  | .mk tag _ _ => tag

/-- The character data directly inside the element. -/
def text : Element → String
  | .mk _ text _ => text

/-- The element children in document order. -/
def children : Element → List Element
  | .mk _ _ children => children

/-- The local name. -/
def name (e : Element) : String :=
  e.tag.name

/-- The namespace of the name, if it has one. -/
def uri (e : Element) : Option String :=
  e.tag.uri

/-- The line of the start tag. -/
def line (e : Element) : Nat :=
  e.tag.line

/-- Whether the element has this name in this namespace. -/
def isIn (e : Element) (uri name : String) : Bool :=
  e.uri == some uri && e.name == name

/-- The value of the first attribute of this name that is in no namespace. -/
def attribute? (e : Element) (name : String) : Option String :=
  (e.tag.attributes.find? (fun a => a.uri.isNone && a.name == name)).map Attribute.value

/-- All attributes with their qualified names, in document order. -/
def qualifiedAttributes (e : Element) : List (String × String) :=
  e.tag.attributes.map
    (fun a => (qualified (if a.uri.isSome then a.qualifier else none) a.name, a.value))

/-- The first element child of this name. -/
def child? (e : Element) (name : String) : Option Element :=
  e.children.find? (fun c => c.name == name)

mutual
/-- The number of elements in the subtree. -/
def size : Element → Nat
  | .mk _ _ children => sizes children + 1

/-- The number of elements in several subtrees. -/
def sizes : List Element → Nat
  | [] => 0
  | e :: es => size e + sizes es
end

end Element

/-- An element at its place: the elements around it, innermost first, and the positions among
element children that lead to it from the root. -/
structure Cursor where
  element : Element
  ancestors : List Element := []
  path : List Nat := []

namespace Cursor

/-- The local name of the element. -/
def name (c : Cursor) : String :=
  c.element.name

/-- The cursors at the given elements, children of `c` from position `i` on. -/
def childrenFrom (c : Cursor) : Nat → List Element → List Cursor
  | _, [] => []
  | i, e :: es =>
    { element := e, ancestors := c.element :: c.ancestors, path := c.path ++ [i] } ::
      childrenFrom c (i + 1) es

/-- The element children in document order. -/
def children (c : Cursor) : List Cursor :=
  childrenFrom c 0 c.element.children

/-- The element and those around it, innermost first. -/
def scope (c : Cursor) : List Element :=
  c.element :: c.ancestors

/-- The nearest value of an attribute on the element or around it. -/
def inherited? (c : Cursor) (name : String) : Option String :=
  c.scope.findSome? (fun e => e.attribute? name)

/-- The declarations of the list whose qualifiers are not declared in `known`, each qualifier
once. -/
def addDeclarations (known : List Declaration) : List Declaration → List Declaration
  | [] => known
  | d :: ds =>
    if known.any (fun k => k.qualifier == d.qualifier) then addDeclarations known ds
    else addDeclarations (known ++ [d]) ds

/-- The namespace declarations in force at the element, innermost first. -/
def declarations (c : Cursor) : List Declaration :=
  c.scope.foldl (fun known e => addDeclarations known e.tag.declarations) []

/-- The cursor reached by following positions among element children. -/
def descend (c : Cursor) : List Nat → Option Cursor
  | [] => some c
  | i :: is =>
    match c.children[i]? with
    | some next => next.descend is
    | none => none

end Cursor

/-- A parsed document. `serialize` gives the text of the element at a path, unless it cannot be
written. -/
structure Document where
  root : Option Element
  serialize : List Nat → Option String := fun _ => none

namespace Document

/-- The cursor at the root element. -/
def cursor? (d : Document) : Option Cursor :=
  d.root.map (fun e => { element := e })

/-- The element at a path from the root. -/
def at? (d : Document) (path : List Nat) : Option Cursor :=
  d.cursor?.bind (fun c => c.descend path)

end Document

end VideoCatalog.Xml
