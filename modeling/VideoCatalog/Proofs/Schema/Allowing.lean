import Mathlib.Data.List.Forall2
import VideoCatalog.Grammar.Schema
import VideoCatalog.Proofs.Xml.QualifiedName

/-!
# What an XML Schema type allows

The child sequences that the type of an element declaration allows, by the rules of the language,
for schemas of element declarations, references, complex types with one sequence or `all`, and
simple types. Names are resolved by namespace: what is named is in the target namespace of the
schema, or it is one of the types of XML Schema itself.

When a child fits an element component is a parameter. The weakest notion is `Named`, that the child
has the name that the component gives.
-/

namespace VideoCatalog.Grammar.Schema

open Xml (Cursor Document Element)

/-! ## Names -/

/-- The namespace of what a schema declares at the top level. -/
def targetNamespace (source : Source) : String :=
  (source.root.element.attribute? "targetNamespace").getD ""

/-- The namespace of references without a qualifier. -/
def defaultNamespace (c : Cursor) : String :=
  ((c.declarations.find? (fun d => d.qualifier.isNone)).map Xml.Declaration.uri).getD ""

/-- The reference written at the place `c` is to this name in this namespace. -/
def RefersTo (c : Cursor) (written uri name : String) : Prop :=
  Xml.Expands c (defaultNamespace c) (Text.trim written) uri name

/-- Whether a top-level component bears a name. -/
def bears (name : String) (c : Cursor) : Bool :=
  (c.element.attribute? "name").map Text.trim = some (Text.trim name)

/-- The top-level elements of a name. -/
def elementsNamed (source : Source) (name : String) : List Cursor :=
  source.root.children.filter (fun c => isComponent "element" c && bears name c)

/-- The types of a name. -/
def typesNamed (source : Source) (name : String) : List Cursor :=
  source.root.children.filter
    (fun c => (isComponent "complexType" c || isComponent "simpleType" c) && bears name c)

/-- Whether the elements of a local declaration are in the target namespace. -/
def isQualified (source : Source) (c : Cursor) : Bool :=
  match c.element.attribute? "form" with
  | some form => Text.trim form = "qualified"
  | none => (source.root.element.attribute? "elementFormDefault").map Text.trim = some "qualified"

/-- The namespace of the elements of a local declaration. -/
def localNamespace (source : Source) (c : Cursor) : String :=
  if isQualified source c then targetNamespace source else ""

/-- A child has the name that an element component gives, in place or by reference. -/
inductive Named (source : Source) (c : Cursor) (e : Element) : Prop
  | declared {written : String} : c.element.attribute? "ref" = none →
      c.element.attribute? "name" = some written → e.name = Text.trim written →
      e.uri.getD "" = localNamespace source c → Named source c e
  | referred {written : String} {g : Cursor} : c.element.attribute? "ref" = some written →
      RefersTo c written (targetNamespace source) e.name → elementsNamed source e.name = [g] →
      g.element.attribute? "ref" = none → e.uri.getD "" = targetNamespace source →
      Named source c e

/-! ## Numbers of occurrences -/

/-- A text stands for a number: decimal digits, perhaps behind a plus sign. -/
def Denotes (text : String) (n : Nat) : Prop :=
  ∃ ds, ((Text.trim text).toList = ds ∨ (Text.trim text).toList = '+' :: ds) ∧
    Text.digits? ds = some n

/-- A component may occur this often; once if nothing is said. -/
structure Occurs (c : Cursor) (k : Nat) : Prop where
  least : ∀ text, c.element.attribute? "minOccurs" = some text → ∃ n, Denotes text n ∧ n ≤ k
  leastDefault : c.element.attribute? "minOccurs" = none → 1 ≤ k
  greatest : ∀ text, c.element.attribute? "maxOccurs" = some text →
    Text.trim text = "unbounded" ∨ ∃ n, Denotes text n ∧ k ≤ n
  greatestDefault : c.element.attribute? "maxOccurs" = none → k ≤ 1

/-! ## Types -/

/-- What the type of a declaration can be. -/
inductive TypeDefinition where
  /-- Any content. -/
  | any
  /-- Text only. -/
  | simple
  /-- The content that a complex type describes. -/
  | complex (definition : Cursor)

/-- The type of an element declaration: a complex or a simple type inside it, or the one that its
attribute names, which is a type of the schema or of the language, or else any. -/
inductive HasType (source : Source) (c : Cursor) : TypeDefinition → Prop
  | inlineComplex {t : Cursor} : c.children.find? (isComponent "complexType") = some t →
      HasType source c (.complex t)
  | inlineSimple {t : Cursor} : c.children.find? (isComponent "complexType") = none →
      c.element.attribute? "type" = none →
      c.children.find? (isComponent "simpleType") = some t → HasType source c .simple
  | complex {written name : String} {t : Cursor} :
      c.children.find? (isComponent "complexType") = none →
      c.element.attribute? "type" = some written →
      RefersTo c written (targetNamespace source) name → typesNamed source name = [t] →
      isComponent "complexType" t = true → HasType source c (.complex t)
  | simple {written name : String} {t : Cursor} :
      c.children.find? (isComponent "complexType") = none →
      c.element.attribute? "type" = some written →
      RefersTo c written (targetNamespace source) name → typesNamed source name = [t] →
      isComponent "simpleType" t = true → HasType source c .simple
  | builtIn {written name : String} : c.children.find? (isComponent "complexType") = none →
      c.element.attribute? "type" = some written → RefersTo c written schemaUri name →
      HasType source c (if name = "anyType" then .any else .simple)
  | none : c.children.find? (isComponent "complexType") = none →
      c.children.find? (isComponent "simpleType") = none →
      c.element.attribute? "type" = none → HasType source c .any

/-- Whether a component of a complex type says nothing about element children. -/
def saysNothing (c : Cursor) : Bool :=
  c.element.uri = some schemaUri && isAside c.name

/-- The element components of a compositor that consists of them and of annotations. -/
def components? (compositor : Cursor) : Option (List Cursor) :=
  let rest := compositor.children.filter (fun p => !isComponent "annotation" p)
  if rest.all (isComponent "element") then some rest else none

/-- The elements of one occurrence of a compositor: those of each component fit it, are as many as
may occur, and follow one another unless the compositor is an `all`. -/
inductive Composed (fits : Cursor → Element → Prop) (compositor : Cursor) : List Element → Prop
  | sequence {components : List Cursor} {pieces : List (List Element)} :
      isComponent "sequence" compositor = true → components? compositor = some components →
      List.Forall₂ (fun p piece => (∀ e ∈ piece, fits p e) ∧ Occurs p piece.length)
        components pieces →
      Composed fits compositor pieces.flatten
  | all {components : List Cursor} {pieces : List (List Element)} {es : List Element} :
      isComponent "all" compositor = true → components? compositor = some components →
      List.Forall₂ (fun p piece => (∀ e ∈ piece, fits p e) ∧ Occurs p piece.length)
        components pieces →
      es.Perm pieces.flatten → Composed fits compositor es

/-- A type allows these children. -/
inductive Allows (fits : Cursor → Element → Prop) : TypeDefinition → List Element → Prop
  | any {es : List Element} : Allows fits .any es
  | simple : Allows fits .simple []
  | empty {t : Cursor} : t.children.all saysNothing = true → Allows fits (.complex t) []
  | composed {t compositor : Cursor} {rounds : List (List Element)} :
      t.children.filter (fun p => !saysNothing p) = [compositor] →
      Occurs compositor rounds.length → (∀ es ∈ rounds, Composed fits compositor es) →
      Allows fits (.complex t) rounds.flatten

/-- The type of an element declaration allows these children. -/
def ContentAllows (source : Source) (fits : Cursor → Element → Prop) (c : Cursor)
    (es : List Element) : Prop :=
  ∃ type, HasType source c type ∧ Allows fits type es

end VideoCatalog.Grammar.Schema
