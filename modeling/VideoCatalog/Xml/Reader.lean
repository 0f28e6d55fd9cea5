import VideoCatalog.Text.Blank
import VideoCatalog.Xml.Element
import VideoCatalog.Xml.Token

/-!
Reading an XML text into a document: tags are matched up, and names are resolved in the namespaces
declared around them. A qualifier that is not declared stays part of the name.
-/

namespace VideoCatalog.Xml

/-- An element whose end tag is still to come. -/
structure Open where
  written : String
  tag : Tag
  scope : List Declaration
  texts : List (List Char) := []
  children : List Element := []

namespace Open

/-- The element, once its end tag has come; what was collected is last first. -/
def close (o : Open) : Element :=
  .mk o.tag (String.ofList o.texts.reverse.flatten) o.children.reverse

end Open

/-- The qualifier of a written name, if it has one, and what follows it. -/
def splitName (written : String) : Option String × String :=
  let cs := written.toList
  match cs.dropWhile (fun c => c ≠ ':') with
  | _ :: rest => (some (String.ofList (cs.takeWhile (fun c => c ≠ ':'))), String.ofList rest)
  | [] => (none, written)

/-- The declaration that an attribute is, if it is one. -/
def declaration? (a : String × String) : Option Declaration :=
  match splitName a.1 with
  | (some q, name) => if q = "xmlns" then some { qualifier := some name, uri := a.2 } else none
  | (none, name) => if name = "xmlns" then some { qualifier := none, uri := a.2 } else none

/-- The namespace that a qualifier stands for; none where the empty one is declared. -/
def lookup? (scope : List Declaration) (qualifier : Option String) : Option String :=
  if qualifier = some "xml" then some "http://www.w3.org/XML/1998/namespace"
  else
    match scope.find? (fun d => d.qualifier = qualifier) with
    | some d => if d.uri = "" then none else some d.uri
    | none => none

/-- The attribute that a name and a value are. -/
def readAttribute (scope : List Declaration) (a : String × String) : Attribute :=
  match splitName a.1 with
  | (some q, name) =>
    match lookup? scope (some q) with
    | some uri => { name := name, value := a.2, qualifier := some q, uri := some uri }
    | none => { name := a.1, value := a.2 }
  | (none, name) => { name := name, value := a.2 }

/-- The start tag as it is meant where some declarations are in force, and those in force inside. -/
def readTag (outer : List Declaration) (written : String) (attributes : List (String × String))
    (line : Nat) : Tag × List Declaration :=
  let declared := attributes.filterMap declaration?
  let scope := declared ++ outer
  let others := (attributes.filter (fun a => (declaration? a).isNone)).map (readAttribute scope)
  let tag : Tag :=
    match splitName written with
    | (some q, name) =>
      match lookup? scope (some q) with
      | some uri =>
        { name := name, uri := some uri, qualifier := some q, line := line, attributes := others,
          declarations := declared }
      | none =>
        { name := written, line := line, attributes := others, declarations := declared }
    | (none, name) =>
      { name := name, uri := lookup? scope none, line := line, attributes := others,
        declarations := declared }
  (tag, scope)

/-- Where reading stands: the elements still open, innermost first, and the root once it is over. -/
structure Progress where
  opened : List Open := []
  root : Option Element := none

namespace Progress

/-- Puts a finished element where it belongs. -/
def add (p : Progress) (e : Element) : Option Progress :=
  match p.opened with
  | o :: outer => some { p with opened := { o with children := e :: o.children } :: outer }
  | [] => if p.root.isSome then none else some { p with root := some e }

/-- Takes a piece into account; nothing if it must not stand where it does. -/
def take (p : Progress) : Token → Option Progress
  | .text cs =>
    match p.opened with
    | o :: outer => some { p with opened := { o with texts := cs :: o.texts } :: outer }
    | [] => if cs.all isGap then some p else none
  | .start written attributes line closed =>
    let outer := (p.opened.head?.map Open.scope).getD []
    let (tag, scope) := readTag outer written attributes line
    let o : Open := { written := written, tag := tag, scope := scope }
    if closed then p.add o.close
    else if p.opened.isEmpty && p.root.isSome then none
    else some { p with opened := o :: p.opened }
  | .finish written =>
    match p.opened with
    | o :: outer =>
      if o.written = written then { p with opened := outer }.add o.close else none
    | [] => none

/-- The root of a document that is over. -/
def finished? (p : Progress) : Option Element :=
  if p.opened.isEmpty then p.root else none

end Progress

/-- The root element of a text. -/
def Element.ofText? (text : String) : Except Malformed Element := do
  let pieces ← tokens text
  match (pieces.foldlM Progress.take {}).bind Progress.finished? with
  | some root => .ok root
  | none => .error { line := lineAfter 1 text.toList }

/-! ## Writing an element down again -/

/-- A declaration as it stands in a tag. -/
def Declaration.text (d : Declaration) : String :=
  match d.qualifier with
  | some q => attributeText ("xmlns:" ++ q) d.uri
  | none => attributeText "xmlns" d.uri

/-- What a start tag says between its brackets. -/
def Tag.text (t : Tag) : String :=
  qualified t.qualifier t.name ++ String.join (t.declarations.map Declaration.text) ++
    String.join (t.attributes.map (fun a => attributeText (qualified a.qualifier a.name) a.value))

namespace Element

mutual
/-- An element on one line, its character data in front of its children. -/
def markup : Element → String
  | .mk tag text children =>
    if text = "" && children.isEmpty then "<" ++ tag.text ++ "/>"
    else
      "<" ++ tag.text ++ ">" ++ escape .content text ++ markups children ++ "</" ++
        qualified tag.qualifier tag.name ++ ">"

/-- Several elements one after the other. -/
def markups : List Element → String
  | [] => ""
  | e :: es => markup e ++ markups es
end

end Element

/-- The document that a text holds. -/
def Document.ofText? (text : String) : Except Malformed Document := do
  let root ← Element.ofText? text
  let document : Document := { root := some root }
  .ok { document with
    serialize := fun path => (document.at? path).map (fun c => c.element.markup) }

end VideoCatalog.Xml
