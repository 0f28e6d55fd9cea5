import VideoCatalog.Grammar.Model
import VideoCatalog.Xml.Markup

/-!
What the readers of the two grammar languages share: the declarations collected so far, the
standalone grammars compiled on the way, and the text of standalone grammars.

A declaration is entered before its content is read, so that a grammar can refer back to it. Where
a grammar leads the reader in a circle that enters no new declaration, reading does not end; the
readers therefore take a depth up to which they follow a grammar, and `none` as the outcome of a
reader means that this depth was reached.
-/

namespace VideoCatalog.Grammar

open Xml (Cursor)

/-- What has been read of a grammar. -/
structure Collected (G : Type) where
  /-- The declarations entered so far. -/
  declarations : List (Declaration G) := []
  /-- Where the declaration of an element of the grammar document was entered. -/
  known : List (List Nat × Nat) := []
  /-- The standalone grammars given to the compiler so far, in order. -/
  requests : List String := []

/-- A step of reading; `none` if the depth is reached. -/
abbrev Read (G α : Type) := StateT (Collected G) Option α

/-- A compiler of standalone grammars: the position of the request among all requests of the
reading, and the text. -/
abbrev Compiler (G : Type) := Nat → String → Option G

/-- What the reading of a grammar document comes to. -/
inductive Reading (G : Type) where
  /-- The document leads the reader in a circle. -/
  | endless
  /-- The model, if the document is a grammar, and the standalone grammars compiled for it. -/
  | finished (model : Option (Model G)) (requests : List String)

namespace Read

variable {G α β : Type}

/-- The reader has gone as deep as it may. -/
def tooDeep : Read G α :=
  fun _ => none

/-- Where the declaration of an element was entered, if it was. -/
def known? (path : List Nat) : Read G (Option Nat) := do
  let s ← get
  pure (s.known.lookup path)

/-- Enters a declaration that no element of the document makes. -/
def enterUndefined (name : String) : Read G Nat :=
  modifyGet (fun s =>
    (s.declarations.length,
      { s with declarations := s.declarations ++ [{ name := name, body := .unsupported }] }))

/-- Enters the declaration of an element whose content is still to be read. -/
def enter (path : List Nat) (name : String) : Read G Nat :=
  modifyGet (fun s =>
    (s.declarations.length,
      { s with
        declarations := s.declarations ++ [{ name := name, body := .unsupported }]
        known := (path, s.declarations.length) :: s.known }))

/-- Settles how the elements of a declaration are checked. -/
def setBody (index : Nat) (body : Body G) : Read G Unit :=
  modify (fun s =>
    { s with declarations := s.declarations.modify index (fun d => { d with body := body }) })

/-- Compiles a standalone grammar. -/
def compileWith (compile : Compiler G) (text : String) : Read G (Option G) :=
  modifyGet (fun s =>
    (compile s.requests.length text, { s with requests := s.requests ++ [text] }))

/-- The body of an element that cannot be checked child by child. -/
def isolate (compile : Compiler G) : Option String → Read G (Body G)
  | none => pure .unsupported
  | some text => do
    match ← compileWith compile text with
    | some grammar => pure (.isolated grammar)
    | none => pure .unsupported

/-- The results for a list, up to the first that has none; what was entered before stays. -/
def allOrNone (f : α → Read G (Option β)) : List α → Read G (Option (List β))
  | [] => pure (some [])
  | a :: as => do
    match ← f a with
    | none => pure none
    | some b =>
      match ← allOrNone f as with
      | none => pure none
      | some bs => pure (some (b :: bs))

/-- The results for a list, in order. -/
def forEach (f : α → Read G β) : List α → Read G (List β)
  | [] => pure []
  | a :: as => do
    let b ← f a
    let bs ← forEach f as
    pure (b :: bs)

end Read

/-- The element of the list that bears this name last. -/
def lastNamed? (name : String) (named : List (String × Cursor)) : Option Cursor :=
  (named.reverse.find? (fun entry => entry.1 == name)).map Prod.snd

/-- How deep a reader follows a document. Between two new declarations the reader goes at most as
deep as the document has elements, so only a circle gets deeper than this. -/
def depthBound (root : Xml.Element) : Nat :=
  (root.size + 2) * (root.size + 2)

/-! ## Text of standalone grammars -/

/-- The attribute that makes a namespace declaration. -/
def declarationText (d : Xml.Declaration) : String :=
  Xml.attributeText
    (match d.qualifier with
      | some q => "xmlns:" ++ q
      | none => "xmlns")
    d.uri

/-- A start tag up to its closing bracket. -/
def tagText (name : String) (declarations : List Xml.Declaration)
    (attributes : List (String × String)) : String :=
  "<" ++ name ++ String.join (declarations.map declarationText) ++
    String.join (attributes.map (fun a => Xml.attributeText a.1 a.2))

/-- A start tag. -/
def openTag (name : String) (declarations : List Xml.Declaration)
    (attributes : List (String × String)) : String :=
  tagText name declarations attributes ++ ">"

/-- An element without content. -/
def emptyTag (name : String) (declarations : List Xml.Declaration)
    (attributes : List (String × String)) : String :=
  tagText name declarations attributes ++ "/>"

/-- An end tag. -/
def closeTag (name : String) : String :=
  "</" ++ name ++ ">"

end VideoCatalog.Grammar
