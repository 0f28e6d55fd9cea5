import VideoCatalog.Text.Blank
import VideoCatalog.Xml.Element

/-!
What the catalogue asks of the XML engines underneath it, and what they may answer.

A `Backend` parses texts, compiles grammars for the two grammar languages, judges documents by
compiled grammars and evaluates queries. All of its answers are values: an engine that reports
diagnostics, runs out of memory or has no answer says so in its reply, and everything the catalogue
does is a function of the replies. The `n`-th compilation by an engine may be answered differently
from the others, so a request to compile carries its number.
-/

namespace VideoCatalog

open Xml (Document Element)

/-- The two grammar languages, each with an engine of its own. -/
inductive Engine where
  /-- XML Schema (XSD). -/
  | schema
  /-- RelaxNG patterns. -/
  | pattern
  deriving DecidableEq

/-- One diagnostic as an engine hands it over; its text may be absent. -/
structure Report where
  text : Option String
  level : Int
  line : Int

/-- How serious a diagnostic is. -/
inductive Severity where
  | warning
  | error
  | fatal
  deriving DecidableEq

namespace Severity

/-- The severity of a numeric level. -/
def ofLevel (level : Int) : Severity :=
  if level = 1 then .warning else if level = 3 then .fatal else .error

/-- The word in front of a diagnostic. -/
def label : Severity → String
  | .warning => "Warning"
  | .error => "Error"
  | .fatal => "Error"

end Severity

/-- One diagnostic of an engine. -/
structure Message where
  severity : Severity
  line : Int
  text : String
  deriving DecidableEq

namespace Message

/-- The diagnostic in a report, if there is a report and it has a text. -/
def ofReport? (report : Option Report) : Option Message := do
  let r ← report
  let text ← r.text
  some { severity := .ofLevel r.level, line := r.line, text := Text.trim text }

/-- The diagnostics in the reports of an engine, in order. -/
def ofReports (reports : List (Option Report)) : List Message :=
  reports.filterMap ofReport?

end Message

/-- Why an engine cannot do what it is asked. -/
inductive EngineError where
  /-- A grammar does not compile. -/
  | grammarRejected (details : String)
  /-- No context to judge a document in can be made. -/
  | noValidationContext
  /-- The engine is out of memory. -/
  | outOfMemory
  /-- A text is no well-formed document. -/
  | malformed (details : String)
  /-- A query fails. -/
  | query (details : String)
  /-- A text is longer than the engine can take. -/
  | tooLarge (size : Nat)
  /-- A text holds a NUL, which the engine cannot take. -/
  | interiorNul (value : String)
  deriving DecidableEq

namespace EngineError

/-- The wording of the error. -/
def message : EngineError → String
  | .grammarRejected details => "Schema parsing failed: " ++ details
  | .noValidationContext => "Validation context creation failed"
  | .outOfMemory => "Memory allocation failed in libxml2"
  | .malformed details => details
  | .query details => "XPath error: " ++ details
  | .tooLarge size =>
    "Input of " ++ toString size ++ " bytes exceeds the libxml2 buffer limit"
  | .interiorNul value => "Value contains an interior NUL byte: " ++ value

end EngineError

/-- The reply to a text to be parsed. -/
inductive Parsed where
  | document (d : Document)
  /-- The text is not well-formed; the last diagnostic, if there is one. -/
  | malformed (last : Option Report)

/-- The reply to a grammar to be compiled. -/
inductive Compilation (G : Type) where
  | compiled (grammar : G)
  /-- The grammar is rejected with these diagnostics. -/
  | rejected (reports : List (Option Report))
  /-- No context to compile in can be made. -/
  | noContext

/-- The reply to a document to be judged. -/
inductive Verdict where
  /-- The return code and the diagnostics reported on the way. -/
  | answered (code : Int) (reports : List (Option Report))
  /-- No context to judge in can be made. -/
  | noContext

/-- A node that a query selects. -/
inductive QueryNode where
  /-- The element at a path. -/
  | element (path : List Nat)
  /-- A node of another kind. -/
  | other

/-- The reply to a query. -/
inductive QueryReply where
  /-- The evaluation fails. -/
  | failed
  /-- The value is no set of nodes. -/
  | notNodes
  /-- The nodes selected. -/
  | nodes (selected : List QueryNode)

/-- What has been bound for the expressions of a query: namespaces to qualifiers, and texts to
variables. -/
structure Bindings where
  namespaces : List (String × String) := []
  values : List (String × String) := []

/-- The XML engines; `G` are the compiled grammars. -/
structure Backend (G : Type) where
  parse : String → Parsed
  compile : Engine → Nat → ByteArray → Compilation G
  judge : G → Option Element → Verdict
  /-- Whether queries over a document can be made. -/
  opensQuery : Document → Bool
  /-- Whether a namespace can be bound to a qualifier. -/
  bindsNamespace : String → String → Bool
  /-- Whether a variable can be bound to a text. -/
  bindsVariable : String → String → Bool
  evaluate : Document → Bindings → String → QueryReply

/-- What is said of a text that does not parse. -/
def malformedDetails (last : Option Report) : String :=
  match Message.ofReport? last with
  | some m => m.text ++ " (line " ++ toString m.line ++ ")"
  | none => "document could not be parsed"

namespace Backend

variable {G : Type}

/-- The most bytes that an engine takes in one piece. -/
def sizeLimit : Nat := 2147483647

/-- The document that a text holds. -/
def document (b : Backend G) (text : String) : Except EngineError Document :=
  if sizeLimit < text.utf8ByteSize then .error (.tooLarge text.utf8ByteSize)
  else
    match b.parse text with
    | .document d => .ok d
    | .malformed last => .error (.malformed (malformedDetails last))

/-- What is said of a grammar that does not compile. -/
def rejectionDetails (messages : List Message) : String :=
  if messages.isEmpty then "no diagnostics reported"
  else Text.joinWith "; " (messages.map Message.text)

/-- The grammar that a source compiles to, as the `n`-th one of its engine. -/
def grammar (b : Backend G) (engine : Engine) (n : Nat) (source : ByteArray) :
    Except EngineError G :=
  if sizeLimit < source.size then .error (.tooLarge source.size)
  else
    match b.compile engine n source with
    | .compiled g => .ok g
    | .rejected reports => .error (.grammarRejected (rejectionDetails (Message.ofReports reports)))
    | .noContext => .error .outOfMemory

end Backend

/-! ## Verdicts -/

/-- What a verdict means. -/
inductive Outcome where
  /-- The document is accepted, perhaps with warnings. -/
  | valid (warnings : List Message)
  /-- The document is rejected. -/
  | invalid (messages : List Message)
  /-- The engine failed. -/
  | internal (code : Int)
  deriving DecidableEq

namespace Outcome

/-- The meaning of a return code and the diagnostics reported with it. -/
def ofCode (code : Int) (messages : List Message) : Outcome :=
  if code = 0 then .valid messages
  else if 0 < code then .invalid messages
  else .internal code

/-- Whether the document is accepted. -/
def isValid : Outcome → Bool
  | .valid _ => true
  | _ => false

end Outcome

/-- The outcome of a verdict. -/
def Verdict.outcome : Verdict → Except EngineError Outcome
  | .answered code reports => .ok (.ofCode code (Message.ofReports reports))
  | .noContext => .error .noValidationContext

end VideoCatalog
