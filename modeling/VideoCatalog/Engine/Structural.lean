import VideoCatalog.Engine.Datatype
import VideoCatalog.Grammar.Pattern
import VideoCatalog.Grammar.Schema
import VideoCatalog.Search
import VideoCatalog.Xml.Reader

/-!
XML engines of the library's own, for grammars that say no more than which children an element has
and of which datatype its text is. A grammar compiles to the model read from it, with a datatype at
every element that is not element-only; a grammar that says more is rejected. A document is judged
by listing its violations. Of queries only that of the search is known.
-/

namespace VideoCatalog

open Grammar (Diagnostics Model Reading Violation)
open Xml (Document Element)

namespace Structural

/-- A grammar as these engines compile it. -/
abbrev Compiled := Model Datatype

/-- An error to be reported. -/
def report (line : Nat) (text : String) : Option Report :=
  some { text := some text, level := 2, line := line }

/-! ## Compiling -/

/-- The datatype of the first element that a schema declares. -/
def schemaDatatype? (root : Element) : Option Datatype := do
  let declared ← root.child? "element"
  match declared.attribute? "type" with
  | some name => Datatype.ofName? (Xml.localName name)
  | none => if declared.children.isEmpty then some (.text none) else none

/-- A datatype with the parameters of a data pattern. -/
def withParameter (d : Datatype) (p : Element) : Option Datatype :=
  if p.name = "param" && p.attribute? "name" = some "pattern" then d.restrict? p.text else none

/-- The datatype of the text that a pattern allows. -/
def contentDatatype? (content : Element) : Option Datatype := do
  if content.name = "text" then some (.text none)
  else if content.name = "empty" then some (.text (some []))
  else if content.name = "data" then
    let base ← (content.attribute? "type").bind Datatype.ofName?
    content.children.foldlM withParameter base
  else none

/-- The datatype of the element that a pattern grammar starts with. -/
def patternDatatype? (root : Element) : Option Datatype := do
  let start ← root.child? "start"
  let element ← start.child? "element"
  match element.children with
  | [content] => contentDatatype? content
  | _ => none

/-- The datatype of the element that a standalone grammar is about. -/
def datatype? (engine : Engine) (source : String) : Option Datatype := do
  let document ← (Document.ofText? source).toOption
  let root ← document.root
  match engine with
  | .schema => schemaDatatype? root
  | .pattern => patternDatatype? root

/-- The model of a grammar document. -/
def model? (engine : Engine) (document : Document) : Option Compiled :=
  let reading :=
    match engine with
    | .schema => Grammar.Schema.read (fun _ source => datatype? .schema source) document
    | .pattern => Grammar.Pattern.read (fun _ source => datatype? .pattern source) document
  match reading with
  | .finished model _ => model
  | .endless => none

/-- Whether a declaration says how its elements are judged. -/
def isJudged (d : Grammar.Declaration Datatype) : Bool :=
  match d.body with
  | .unsupported => false
  | _ => true

/-- The reply to a grammar document. -/
def compileDocument (engine : Engine) (document : Document) : Compilation Compiled :=
  match model? engine document with
  | none => .rejected [report 1 "the document is no grammar"]
  | some model =>
    match model.declarations.find? (fun d => !isJudged d) with
    | none => .compiled model
    | some d => .rejected [report 1 ("the declaration of '" ++ d.name ++ "' is not supported")]

/-- The reply to a grammar source. -/
def compile (engine : Engine) (source : ByteArray) : Compilation Compiled :=
  match (String.fromUTF8? source).map Document.ofText? with
  | none => .rejected [report 1 "the source is no text"]
  | some (.error e) => .rejected [report e.line "the source is not well-formed"]
  | some (.ok document) => compileDocument engine document

/-! ## Judging -/

/-- What is wrong with an element that has to hold a text of a datatype. -/
def faults (d : Datatype) (e : Element) : List String :=
  if !e.children.isEmpty then ["Element '" ++ e.name ++ "': Element content is not allowed."]
  else if d.accepts e.text then []
  else ["Element '" ++ e.name ++ "': '" ++ e.text ++ "' is not a valid value of its type."]

/-- How violations are worded. -/
def diagnostics : Diagnostics Datatype where
  violation := Violation.message
  isolated := fun d e => some (faults d e)

/-- The verdict on a document with this root. -/
def judge (model : Compiled) : Option Element → Verdict
  | none => .answered 1 [report 1 "The document has no root element."]
  | some root =>
    match model.root? root.name with
    | none =>
      .answered 1
        [report root.line ("Element '" ++ root.name ++ "': No declaration of it as a root.")]
    | some index =>
      match model.explainElement diagnostics root index with
      | none => .answered (-1) []
      | some [] => .answered 0 []
      | some messages => .answered 1 (messages.map (report root.line))

/-! ## The query of the search -/

/-- Whether one row of characters occurs in another. -/
def occursIn (part : List Char) : List Char → Bool
  | [] => part.isEmpty
  | c :: cs => part.isPrefixOf (c :: cs) || occursIn part cs

/-- Whether the first child of this name holds the term. -/
def holdsTerm (uri upper lower term name : String) (entry : Element) : Bool :=
  match entry.children.find? (fun c => c.isIn uri name) with
  | some child => occursIn term.toList (Text.translate child.text upper lower).toList
  | none => term.isEmpty

/-- Whether an element is an entry that matches. -/
def isMatch (uri upper lower term : String) (entry : Element) : Bool :=
  entry.isIn uri "video" &&
    (holdsTerm uri upper lower term "title" entry ||
      holdsTerm uri upper lower term "author" entry)

/-- The positions of the entries that match. -/
def selected (uri upper lower term : String) (root : Element) : List QueryNode :=
  if root.isIn uri "videos" then
    (root.children.zipIdx.filter (fun entry => isMatch uri upper lower term entry.1)).map
      (fun entry => .element [entry.2])
  else []

/-- The reply to the query of the search. -/
def evaluate (document : Document) (bindings : Bindings) (expression : String) : QueryReply :=
  let reply : Option QueryReply := do
    if expression ≠ Search.expression then none
    let root ← document.root
    let uri ← bindings.namespaces.lookup Search.qualifier
    let upper ← bindings.values.lookup "upper"
    let lower ← bindings.values.lookup "lower"
    let term ← bindings.values.lookup "term"
    some (.nodes (selected uri upper lower term root))
  reply.getD .failed

/-! ## The engines -/

/-- The reply to a text to be parsed. -/
def parse (text : String) : Parsed :=
  match Document.ofText? text with
  | .ok document => .document document
  | .error e => .malformed (report e.line "The document is not well-formed")

/-- The engines. -/
def backend : Backend Compiled where
  parse := parse
  compile := fun engine _ source => compile engine source
  judge := judge
  opensQuery := fun _ => true
  bindsNamespace := fun _ _ => true
  bindsVariable := fun _ _ => true
  evaluate := evaluate

end Structural

end VideoCatalog
