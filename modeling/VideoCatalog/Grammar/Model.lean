import VideoCatalog.Grammar.Content
import VideoCatalog.Grammar.Violation
import VideoCatalog.Xml.Element

/-!
The element structure that a grammar declares.

A model is a list of declarations that refer to one another by position, so it may be recursive. An
element-only declaration is checked child by child; any other one is checked as a whole against a
grammar that declares just that element, if there is one.

`Model.explain` lists the violations of a document: those of an element in the order of its
children, then its missing children, then those of the children below it. It lists nothing of a
document that lies outside what the model can check.
-/

namespace VideoCatalog.Grammar

open Xml (Element)

/-- The content of a declaration: its particles refer to other declarations by position. -/
abbrev DeclaredContent := Content Nat

/-- How the elements of a declaration are checked; `G` are the compiled grammars. -/
inductive Body (G : Type) where
  /-- Child by child. -/
  | children (content : DeclaredContent)
  /-- As a document of their own, against a grammar that declares just them. -/
  | isolated (grammar : G)
  /-- Not at all. -/
  | unsupported

/-- One element declaration. -/
structure Declaration (G : Type) where
  name : String
  body : Body G

/-- The declarations of a grammar, and which of them its documents can begin with. -/
structure Model (G : Type) where
  declarations : List (Declaration G)
  roots : List Nat

/-- How violations are worded, and how an element is checked on its own; that check may fail to
give an answer. -/
structure Diagnostics (G : Type) where
  violation : Violation → String
  isolated : G → Element → Option (List String)

/-- The violations of the children in their order: those unknown to the parent and those in a wrong
place. -/
def childViolations (parent : String) : List String → List (Slot Nat) → List Violation
  | name :: names, slot :: slots =>
    match slot with
    | .accepted _ => childViolations parent names slots
    | .misplaced _ => .misplaced parent name :: childViolations parent names slots
    | .unexpected => .unexpected parent name :: childViolations parent names slots
  | _, _ => []

/-- The violations of the content of one element, given the names of its children. -/
def DeclaredContent.violations (content : DeclaredContent) (parent : String)
    (names : List String) : List Violation :=
  childViolations parent names (content.place names) ++
    (content.missing names).map (.missing parent)

namespace Model

variable {G : Type}

mutual
/-- The messages for an element checked against the declaration at a position, and for all below
it. -/
def explainElement (m : Model G) (d : Diagnostics G) : Element → Nat → Option (List String)
  | .mk tag text children, index =>
    match m.declarations[index]? with
    | none => none
    | some declaration =>
      match declaration.body with
      | .unsupported => none
      | .isolated grammar => d.isolated grammar (.mk tag text children)
      | .children content => do
        let names := children.map Element.name
        let own := (content.violations declaration.name names).map d.violation
        let below ← explainChildren m d children (content.place names)
        some (own ++ below)

/-- The messages for the children that have a declaration to be checked against. -/
def explainChildren (m : Model G) (d : Diagnostics G) :
    List Element → List (Slot Nat) → Option (List String)
  | child :: children, slot :: slots =>
    match slot.target? with
    | some index => do
      let here ← explainElement m d child index
      let rest ← explainChildren m d children slots
      some (here ++ rest)
    | none => explainChildren m d children slots
  | _, _ => some []
end

/-- The first declaration of that name that a document can begin with. -/
def root? (m : Model G) (name : String) : Option Nat :=
  m.roots.find? (fun index => (m.declarations[index]?).any (fun d => d.name == name))

/-- The messages for a document with this root element, unless it lies outside the model. -/
def explain (m : Model G) (d : Diagnostics G) (root : Option Element) :
    Option (List String) := do
  let root ← root
  let index ← m.root? root.name
  explainElement m d root index

end Model

end VideoCatalog.Grammar
