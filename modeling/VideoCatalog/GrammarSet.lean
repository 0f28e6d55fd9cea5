import VideoCatalog.Validator

/-!
The two grammars of the catalogue side by side. A submission is checked against one of them or
against both; with both, the violations of the schema come before those of the pattern.
-/

namespace VideoCatalog

open Xml (Document)

/-- The grammars that a submission is checked against. -/
inductive GrammarChoice where
  | schema
  | pattern
  | both
  deriving DecidableEq

namespace GrammarChoice

/-- The word for a choice. -/
def label : GrammarChoice → String
  | .schema => "schema"
  | .pattern => "pattern"
  | .both => "both"

/-- The choice that a word stands for. -/
def ofLabel? (s : String) : Option GrammarChoice :=
  if s = "schema" then some .schema
  else if s = "pattern" then some .pattern
  else if s = "both" then some .both
  else none

end GrammarChoice

/-- The violations of one document; it is valid exactly when there are none. -/
structure ValidationResult where
  errors : List String
  deriving DecidableEq

namespace ValidationResult

/-- Whether there are no violations. -/
def isValid (r : ValidationResult) : Bool :=
  r.errors.isEmpty

/-- The result for a text that is no well-formed document. -/
def malformed (e : EngineError) : ValidationResult :=
  { errors := ["well-formedness error: " ++ e.message] }

end ValidationResult

namespace Validator

variable {G : Type}

/-- The result for a text checked against one grammar. -/
def validate (b : Backend G) (v : Validator G) (text : String) : ValidationResult :=
  match b.document text with
  | .ok d => { errors := v.check b d.root }
  | .error e => .malformed e

end Validator

/-- Both compiled grammars. -/
structure GrammarSet (G : Type) where
  schema : Validator G
  pattern : Validator G

namespace GrammarSet

variable {G : Type}

/-- The violations of a parsed document. -/
def check (b : Backend G) (g : GrammarSet G) (choice : GrammarChoice) (d : Document) :
    List String :=
  match choice with
  | .schema => g.schema.check b d.root
  | .pattern => g.pattern.check b d.root
  | .both => g.schema.check b d.root ++ g.pattern.check b d.root

/-- The result for a text; it is parsed once. -/
def validate (b : Backend G) (g : GrammarSet G) (choice : GrammarChoice) (text : String) :
    ValidationResult :=
  match b.document text with
  | .ok d => { errors := g.check b choice d }
  | .error e => .malformed e

end GrammarSet

end VideoCatalog
