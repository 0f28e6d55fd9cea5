import VideoCatalog.Grammar.Reading
import VideoCatalog.Text.Integer

/-!
Reading an XML Schema (XSD) into a model.

An element is element-only if its type, given inline or by name, is a complex type without mixed
content that consists of attributes and at most one `sequence` or `all` of element declarations.
Every other element is checked on its own, against the schema with just that element declared at
the top.
-/

namespace VideoCatalog.Grammar.Schema

open Xml (Cursor Document)

/-- The namespace of XML Schema. -/
def schemaUri : String :=
  "http://www.w3.org/2001/XMLSchema"

/-- Whether an element is the schema component of this name. -/
def isComponent (name : String) (c : Cursor) : Bool :=
  c.element.isIn schemaUri name

/-- The top-level components of one kind, by name. -/
def named (kind : String) (root : Cursor) : List (String × Cursor) :=
  (root.children.filter (isComponent kind)).filterMap
    (fun c => (c.element.attribute? "name").map (fun name => (name, c)))

/-- A schema document and its named top-level components. -/
structure Source where
  document : Document
  root : Cursor
  elements : List (String × Cursor)
  types : List (String × Cursor)

/-- The schema document with this root. -/
def Source.ofRoot (document : Document) (root : Cursor) : Source where
  document := document
  root := root
  elements := named "element" root
  types := named "complexType" root

/-- A bound on occurrences. -/
def bound? (text : String) : Option Nat :=
  Text.count? (Text.trim text)

/-- The least and the greatest number of occurrences; once if nothing is said. -/
def occurs? (c : Cursor) : Option (Nat × Option Nat) := do
  let least ←
    match c.element.attribute? "minOccurs" with
    | some text => bound? text
    | none => some 1
  let greatest ←
    match c.element.attribute? "maxOccurs" with
    | some text =>
      if Text.trim text = "unbounded" then some none else (bound? text).map some
    | none => some (some 1)
  some (least, greatest)

/-- The complex type of an element declaration: inline, or named. -/
def complexType? (source : Source) (c : Cursor) : Option Cursor :=
  match c.children.find? (isComponent "complexType") with
  | some inline => some inline
  | none => do
    let name ← c.element.attribute? "type"
    lastNamed? (Xml.localName name) source.types

/-- The components of a complex type that say nothing about element children. -/
def isAside (name : String) : Bool :=
  name = "annotation" || name = "attribute" || name = "attributeGroup" || name = "anyAttribute"

/-- The compositor among the components of a complex type; `none` if there is anything else than
one compositor and what says nothing about element children. -/
def compositor? : Option Cursor → List Cursor → Option (Option Cursor)
  | found, [] => some found
  | found, c :: cs =>
    if c.element.uri ≠ some schemaUri then none
    else if isAside c.name then compositor? found cs
    else if (c.name = "sequence" || c.name = "all") && found.isNone then compositor? (some c) cs
    else none

/-- What a complex type says of the element children, as far as the model understands it. -/
inductive Shape where
  /-- There are none. -/
  | empty
  /-- They are declared by these components, in order or not. -/
  | particles (ordered : Bool) (components : List Cursor)

/-- The shape of the content of an element declaration; `none` if it is not element-only. -/
def shape? (source : Source) (c : Cursor) : Option Shape := do
  let complex ← complexType? source c
  if complex.element.attribute? "mixed" = some "true" then none
  match ← compositor? none complex.children with
  | none => some .empty
  | some compositor =>
    let times ← occurs? compositor
    if times ≠ (1, some 1) then none
    some (.particles (compositor.name = "sequence") compositor.children)

/-! ## Standalone schemas -/

/-- Whether a declaration stands at the top level of the schema. -/
def isGlobal (c : Cursor) : Bool :=
  c.path.length = 1

/-- Whether a local declaration would be in another namespace at the top level. -/
def changesNamespace (source : Source) (c : Cursor) : Bool :=
  !isGlobal c && (source.root.element.attribute? "targetNamespace").isSome &&
    source.root.element.attribute? "elementFormDefault" ≠ some "qualified"

/-- The attributes that a local declaration keeps at the top level. -/
def keptAttributes (c : Cursor) : List (String × String) :=
  c.element.qualifiedAttributes.filter
    (fun a => a.1 ≠ "minOccurs" && a.1 ≠ "maxOccurs" && a.1 ≠ "form")

/-- The texts of several elements, if all of them can be written. -/
def texts? (document : Document) (cs : List Cursor) : Option String :=
  (cs.mapM (fun c => document.serialize c.path)).map String.join

/-- A local declaration as it is written at the top level. -/
def localText? (source : Source) (c : Cursor) : Option String :=
  let name := Xml.qualified c.element.tag.qualifier "element"
  if c.element.children.isEmpty then some (emptyTag name [] (keptAttributes c))
  else
    (texts? source.document c.children).map
      (fun inner => openTag name [] (keptAttributes c) ++ inner ++ closeTag name)

/-- The declaration of an element as it is written at the top level. -/
def topText? (source : Source) (c : Cursor) : Option String :=
  if isGlobal c then source.document.serialize c.path else localText? source c

/-- The other components of the schema: all but the declaration itself and the top-level elements
of its name. -/
def otherComponents (source : Source) (c : Cursor) (name : String) : List Cursor :=
  source.root.children.filter (fun other =>
    !(other.path == c.path ||
      (isComponent "element" other && other.element.attribute? "name" == some name)))

/-- The schema with the element `c` declared at the top level in place of any other of its name. -/
def standalone? (source : Source) (c : Cursor) (name : String) : Option String := do
  if changesNamespace source c then none
  let root := Xml.qualified source.root.element.tag.qualifier source.root.name
  let top ← topText? source c
  let others ← texts? source.document (otherComponents source c name)
  some (openTag root c.declarations source.root.element.qualifiedAttributes ++ top ++ others ++
    closeTag root)

/-! ## Declarations -/

variable {G : Type}

/-- The particle of one component of a compositor, given how declarations are read; `some none` for
a component to be passed over. -/
def particle (declare : Cursor → Read G (Nat × String)) (c : Cursor) :
    Read G (Option (Option (Particle Nat))) :=
  if isComponent "annotation" c then pure (some none)
  else if !isComponent "element" c then pure none
  else
    match occurs? c with
    | none => pure none
    | some (least, greatest) => do
      let (index, name) ← declare c
      pure (some (some { target := index, name := name, min := least, max := greatest }))

/-- The content of an element declaration, given how declarations are read. -/
def content (source : Source) (declare : Cursor → Read G (Nat × String)) (c : Cursor) :
    Read G (Option DeclaredContent) :=
  match shape? source c with
  | none => pure none
  | some .empty => pure (some { ordered := true, particles := [] })
  | some (.particles ordered components) => do
    match ← Read.allOrNone (particle declare) components with
    | none => pure none
    | some found => pure (some { ordered := ordered, particles := found.filterMap id })

/-- Reads an element declaration up to a depth: the position at which it is entered, and its name.
A reference stands for the top-level element of that name. -/
def declaration (source : Source) (compile : Compiler G) : Nat → Cursor → Read G (Nat × String)
  | 0, _ => Read.tooDeep
  | depth + 1, c =>
    match c.element.attribute? "ref" with
    | some reference =>
      let name := Xml.localName reference
      match lastNamed? name source.elements with
      | some target => declaration source compile depth target
      | none => do
        let index ← Read.enterUndefined name
        pure (index, name)
    | none => do
      let name := (c.element.attribute? "name").getD ""
      match ← Read.known? c.path with
      | some index => pure (index, name)
      | none =>
        let index ← Read.enter c.path name
        let body ←
          match ← content source (declaration source compile depth) c with
          | some content => pure (.children content)
          | none => Read.isolate compile (standalone? source c name)
        Read.setBody index body
        pure (index, name)

/-- Reads the top-level element declarations up to a depth. -/
def declarations (source : Source) (compile : Compiler G) (depth : Nat) : Read G (List Nat) := do
  let found ← Read.forEach (declaration source compile depth)
    (source.root.children.filter (isComponent "element"))
  pure (found.map Prod.fst)

/-- The model of a schema document, its declarations followed up to a depth. -/
def readUpTo (compile : Compiler G) (document : Document) (depth : Nat) : Reading G :=
  match document.cursor? with
  | none => .finished none []
  | some root =>
    if isComponent "schema" root then
      match (declarations (Source.ofRoot document root) compile depth).run {} with
      | none => .endless
      | some (roots, s) =>
        .finished (some { declarations := s.declarations, roots := roots }) s.requests
    else .finished none []

/-- The model of a schema document. -/
def read (compile : Compiler G) (document : Document) : Reading G :=
  readUpTo compile document ((document.root.map depthBound).getD 0)

end VideoCatalog.Grammar.Schema
