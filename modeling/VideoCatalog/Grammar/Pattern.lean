import VideoCatalog.Grammar.Reading
import VideoCatalog.Text.Blank

/-!
Reading a RelaxNG grammar in XML form into a model.

An element pattern is element-only if its content is a group or an interleaving of element
patterns, each once, optional or repeated, given in place or by a reference to a definition that
consists of one element pattern. Every other element is checked on its own, against a grammar that
starts with it and keeps all definitions.
-/

namespace VideoCatalog.Grammar.Pattern

open Xml (Cursor Document)

/-- The namespace of RelaxNG. -/
def patternUri : String :=
  "http://relaxng.org/ns/structure/1.0"

/-- The children that are patterns or other parts of the grammar language. -/
def parts (c : Cursor) : List Cursor :=
  c.children.filter (fun child => child.element.uri == some patternUri)

/-- A grammar document and its definitions by name. -/
structure Source where
  document : Document
  root : Cursor
  definitions : List (String × Cursor)

/-- Whether the root of a document is the part of this name. -/
def isPart (name : String) (c : Cursor) : Bool :=
  c.element.isIn patternUri name

/-- The definitions of a grammar. -/
def definitionParts (root : Cursor) : List Cursor :=
  if isPart "grammar" root then (parts root).filter (fun c => c.name == "define") else []

/-- The grammar document with this root. -/
def Source.ofRoot (document : Document) (root : Cursor) : Source where
  document := document
  root := root
  definitions := (definitionParts root).filterMap
    (fun c => (c.element.attribute? "name").map (fun name => (name, c)))

/-- The element pattern that a definition consists of, if it consists of one. -/
def definedElement? (source : Source) (name : String) : Option Cursor := do
  let definition ← lastNamed? name source.definitions
  match parts definition with
  | [element] => if element.name = "element" then some element else none
  | _ => none

/-- The name that an element pattern gives, in an attribute or in a child. -/
def patternName (c : Cursor) : String :=
  let written : Option String :=
    match c.element.attribute? "name" with
    | some name => some name
    | none => ((parts c).find? (fun p => p.name == "name")).map (fun p => p.element.text)
  match written with
  | some name => Xml.localName (Text.trim name)
  | none => ""

/-- The parts of an element pattern that describe its content. -/
def contentParts (c : Cursor) : List Cursor :=
  (parts c).filter (fun p => p.name ≠ "name" && p.name ≠ "anyName" && p.name ≠ "nsName")

/-- The patterns that the content consists of, and whether they follow one another. -/
def shape (c : Cursor) : Bool × List Cursor :=
  match contentParts c with
  | [single] =>
    if single.name = "interleave" then (false, parts single)
    else if single.name = "group" then (true, parts single)
    else (true, [single])
  | patterns => (true, patterns)

/-! ## Standalone grammars -/

/-- The attributes that hold for all patterns below the element on which they stand. -/
def inheritedAttributes (c : Cursor) : List (String × String) :=
  ["datatypeLibrary", "ns"].filterMap (fun name => (c.inherited? name).map (fun v => (name, v)))

/-- The grammar that starts with the element pattern `c` and keeps all definitions. -/
def standalone? (source : Source) (c : Cursor) : Option String := do
  let grammar := Xml.qualified c.element.tag.qualifier "grammar"
  let start := Xml.qualified c.element.tag.qualifier "start"
  let element ← source.document.serialize c.path
  let definitions ← (definitionParts source.root).mapM (fun d => source.document.serialize d.path)
  some (openTag grammar c.declarations (inheritedAttributes c) ++ openTag start [] [] ++ element ++
    closeTag start ++ String.join definitions ++ closeTag grammar)

/-! ## Declarations -/

variable {G : Type}

/-- The occurrences that an operator allows of what is once inside it. -/
def repetition (operator : String) : Nat × Option Nat :=
  if operator = "optional" then (0, some 1)
  else if operator = "zeroOrMore" then (0, none)
  else (1, none)

/-- Whether a pattern repeats what is inside it. -/
def isOperator (name : String) : Bool :=
  name = "optional" || name = "zeroOrMore" || name = "oneOrMore"

/-- An element pattern as a particle that occurs once. -/
def once (declare : Cursor → Read G (Nat × String)) (c : Cursor) :
    Read G (Option (Particle Nat)) := do
  let (index, name) ← declare c
  pure (some { target := index, name := name, min := 1, max := some 1 })

/-- The particle of one pattern up to a depth, given how element patterns are read. -/
def particle (source : Source) (declare : Cursor → Read G (Nat × String)) :
    Nat → Cursor → Read G (Option (Particle Nat))
  | 0, _ => Read.tooDeep
  | depth + 1, c =>
    if c.name = "element" then once declare c
    else if c.name = "ref" then
      match (c.element.attribute? "name").bind (definedElement? source) with
      | some element => once declare element
      | none => pure none
    else if isOperator c.name then
      match parts c with
      | [single] => do
        match ← particle source declare depth single with
        | none => pure none
        | some base =>
          if (base.min, base.max) = (1, some 1) then
            let (least, greatest) := repetition c.name
            pure (some { base with min := least, max := greatest })
          else pure none
      | _ => pure none
    else pure none

/-- The content of an element pattern up to a depth, given how element patterns are read. -/
def content (source : Source) (declare : Cursor → Read G (Nat × String)) (depth : Nat)
    (c : Cursor) : Read G (Option DeclaredContent) :=
  let (ordered, items) := shape c
  if items.isEmpty then pure none
  else do
    match ← Read.allOrNone (particle source declare depth) items with
    | none => pure none
    | some particles => pure (some { ordered := ordered, particles := particles })

/-- Reads an element pattern up to a depth: the position at which it is entered, and its name. -/
def declaration (source : Source) (compile : Compiler G) : Nat → Cursor → Read G (Nat × String)
  | 0, _ => Read.tooDeep
  | depth + 1, c => do
    let name := patternName c
    match ← Read.known? c.path with
    | some index => pure (index, name)
    | none =>
      let index ← Read.enter c.path name
      let body ←
        match ← content source (declaration source compile depth) depth c with
        | some content => pure (.children content)
        | none => Read.isolate compile (standalone? source c)
      Read.setBody index body
      pure (index, name)

/-- The element patterns that a pattern of the start offers, up to a depth. -/
def startDeclarations (source : Source) (compile : Compiler G) :
    Nat → Cursor → Read G (List Nat)
  | 0, _ => Read.tooDeep
  | depth + 1, c =>
    if c.name = "element" then do
      let (index, _) ← declaration source compile depth c
      pure [index]
    else if c.name = "ref" then
      match (c.element.attribute? "name").bind (definedElement? source) with
      | some element => do
        let (index, _) ← declaration source compile depth element
        pure [index]
      | none => pure []
    else if c.name = "choice" then do
      let found ← Read.forEach (startDeclarations source compile depth) (parts c)
      pure found.flatten
    else pure []

/-- The outcome of reading from the roots of a grammar. -/
def finish (roots : Read G (List Nat)) : Reading G :=
  match roots.run {} with
  | none => .endless
  | some (roots, s) =>
    .finished (some { declarations := s.declarations, roots := roots }) s.requests

/-- The model of a grammar document, its patterns followed up to a depth. -/
def readUpTo (compile : Compiler G) (document : Document) (depth : Nat) : Reading G :=
  match document.cursor? with
  | none => .finished none []
  | some root =>
    let source := Source.ofRoot document root
    if isPart "grammar" root then
      match (parts root).find? (fun c => c.name == "start") with
      | none => .finished none []
      | some start =>
        finish (do
          let found ← Read.forEach (startDeclarations source compile depth) (parts start)
          pure found.flatten)
    else if isPart "element" root then
      finish (do
        let (index, _) ← declaration source compile depth root
        pure [index])
    else .finished none []

/-- The model of a grammar document. -/
def read (compile : Compiler G) (document : Document) : Reading G :=
  readUpTo compile document ((document.root.map depthBound).getD 0)

end VideoCatalog.Grammar.Pattern
