import VideoCatalog.Engine
import VideoCatalog.Grammar.Pattern
import VideoCatalog.Grammar.Schema

/-!
Checking documents against one compiled grammar.

An engine gives up on an element at the first violation of its content. When it rejects a document,
the model of the grammar is asked to list the violations child by child, and its list takes the
place of the diagnostics of the engine, unless the document lies outside the model or the model
finds nothing.

Messages of the schema engine read `Error: …` or `Warning: …`, those of the pattern engine
`pattern: …`. The pattern engine repeats itself about a violation that it has already reported;
`collapse` drops the repetitions, unless there is nothing else.
-/

namespace VideoCatalog

open Grammar (Diagnostics Model Reading Violation)
open Xml (Element)

/-- A compiled grammar and the model read from its source, if it has one. -/
structure Validator (G : Type) where
  engine : Engine
  grammar : G
  model : Option (Model G)

/-- The outcome of compiling a grammar, and all the sources given to the engine on the way. -/
structure ValidatorBuild (G : Type) where
  outcome : Except EngineError (Validator G)
  sources : List ByteArray

/-! ## Messages -/

/-- A violation found by the model, in the words of an engine. -/
def Engine.violationMessage (engine : Engine) (v : Violation) : String :=
  match engine with
  | .schema => "Error: " ++ v.message
  | .pattern => "pattern: " ++ v.message

/-- A diagnostic as it is shown to the user. -/
def Engine.diagnosticMessage (engine : Engine) (m : Message) : String :=
  match engine with
  | .schema => m.severity.label ++ ": " ++ m.text
  | .pattern => "pattern: " ++ m.text

/-- How the pattern engine begins when it repeats itself. -/
def repetitionBeginnings : List String :=
  ["pattern: Error validating datatype", "pattern: Error validating value",
    "pattern: Invalid sequence in interleave"]

/-- How the pattern engine ends when it repeats itself. -/
def repetitionEnding : String :=
  "failed to validate content"

/-- Whether one text begins with another. -/
def beginsWith (s beginning : String) : Bool :=
  beginning.toList.isPrefixOf s.toList

/-- Whether one text ends with another. -/
def endsWith (s ending : String) : Bool :=
  ending.toList.isSuffixOf s.toList

/-- Whether a message only repeats an earlier one. -/
def isRepetition (message : String) : Bool :=
  repetitionBeginnings.any (beginsWith message) || endsWith message repetitionEnding

/-- The messages without repetitions, or all of them if there is nothing else. -/
def collapse (messages : List String) : List String :=
  let kept := messages.filter (fun m => !isRepetition m)
  if kept.isEmpty then messages else kept

/-- The messages of an engine about a document that it has judged or could not judge. -/
def Engine.outcomeMessages (engine : Engine) : Except EngineError Outcome → List String
  | .ok (.valid warnings) => warnings.map engine.diagnosticMessage
  | .ok (.invalid []) => ["Error: document does not match the grammar"]
  | .ok (.invalid messages) => messages.map engine.diagnosticMessage
  | .ok (.internal code) =>
    ["Error: internal validation failure (code " ++ toString code ++ ")"]
  | .error .noValidationContext => ["Error: validation context could not be created"]
  | .error e => ["Error: " ++ e.message]

/-- The messages of an engine about an element on its own; none if they say nothing about it. -/
def Engine.isolatedMessages (engine : Engine) : Except EngineError Outcome → Option (List String)
  | .ok (.valid warnings) => some (warnings.map engine.diagnosticMessage)
  | .ok (.invalid []) => none
  | .ok (.invalid messages) => some (messages.map engine.diagnosticMessage)
  | _ => none

/-- The messages as they are handed on: those of the pattern engine without repetitions. -/
def Engine.condense (engine : Engine) (messages : List String) : List String :=
  match engine with
  | .schema => messages
  | .pattern => collapse messages

/-! ## Checking -/

namespace Validator

variable {G : Type}

/-- How a validator words violations and checks an element on its own. -/
def diagnostics (b : Backend G) (engine : Engine) : Diagnostics G where
  violation := engine.violationMessage
  isolated := fun grammar e =>
    (engine.isolatedMessages (b.judge grammar (some e)).outcome).map engine.condense

/-- The violations that the model lists, if it can check the document and finds any. -/
def explained? (b : Backend G) (v : Validator G) (root : Option Element) :
    Option (List String) := do
  let model ← v.model
  let messages ← model.explain (diagnostics b v.engine) root
  if messages.isEmpty then none else some messages

/-- The violations of a document with this root, given what the engine says about it: its own
messages when it accepts the document or the model has nothing to say. -/
def messages (b : Backend G) (v : Validator G) (root : Option Element)
    (outcome : Except EngineError Outcome) : List String :=
  match outcome with
  | .ok (.valid _) => v.engine.outcomeMessages outcome
  | _ => (explained? b v root).getD (v.engine.outcomeMessages outcome)

/-- The violations of a document with this root. -/
def check (b : Backend G) (v : Validator G) (root : Option Element) : List String :=
  v.engine.condense (messages b v root (b.judge v.grammar root).outcome)

/-! ## Compiling -/

/-- The grammar that a standalone text compiles to, as the one after `earlier` others. -/
def standaloneCompiler (b : Backend G) (engine : Engine) (earlier : Nat) : Grammar.Compiler G :=
  fun request text =>
    match b.grammar engine (earlier + request) text.toUTF8 with
    | .ok g => some g
    | .error _ => none

/-- The reading of a grammar source in the language of an engine. -/
def readModel (b : Backend G) (engine : Engine) (earlier : Nat) (source : ByteArray) :
    Reading G :=
  match String.fromUTF8? source with
  | none => .finished none []
  | some text =>
    match b.document text with
    | .error _ => .finished none []
    | .ok document =>
      match engine with
      | .schema => Grammar.Schema.read (standaloneCompiler b engine earlier) document
      | .pattern => Grammar.Pattern.read (standaloneCompiler b engine earlier) document

/-- Compiles a grammar source, the first of its engine, and reads its model. A source that leads
the reader in a circle has no model here, so that compiling has a result for every source; the
program does not come back from such a source, as its stack overflows. -/
def compile (b : Backend G) (engine : Engine) (source : ByteArray) : ValidatorBuild G :=
  match b.grammar engine 0 source with
  | .error e => { outcome := .error e, sources := [source] }
  | .ok grammar =>
    match readModel b engine 1 source with
    | .endless =>
      { outcome := .ok { engine := engine, grammar := grammar, model := none }
        sources := [source] }
    | .finished model requests =>
      { outcome := .ok { engine := engine, grammar := grammar, model := model }
        sources := source :: requests.map String.toUTF8 }

end Validator

end VideoCatalog
