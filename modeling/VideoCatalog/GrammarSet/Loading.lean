import VideoCatalog.Failure
import VideoCatalog.GrammarSet
import VideoCatalog.Shipped

/-!
Getting the two grammars ready. Each comes from a file or is the one that is shipped. Loading reads
both before it compiles either, and compiles both before it reports that one is unusable; of two
unusable grammars the schema is reported.
-/

namespace VideoCatalog

/-- The files to take the grammars from; a missing path stands for the shipped grammar. -/
structure GrammarPaths where
  schema : Option String := none
  pattern : Option String := none
  deriving DecidableEq

/-- The outcome of getting the grammars ready, and the sources given to each engine on the way. -/
structure GrammarLoad (G ε : Type) where
  outcome : Except ε (GrammarSet G)
  schemaSources : List ByteArray := []
  patternSources : List ByteArray := []

namespace GrammarSet

variable {G : Type}

/-- Compiles two sources, the schema first; an unusable schema ends the matter. -/
def compile (b : Backend G) (schema pattern : ByteArray) : GrammarLoad G EngineError :=
  let s := Validator.compile b .schema schema
  match s.outcome with
  | .error e => { outcome := .error e, schemaSources := s.sources }
  | .ok schema =>
    let p := Validator.compile b .pattern pattern
    { outcome := p.outcome.map (fun pattern => { schema := schema, pattern := pattern })
      schemaSources := s.sources
      patternSources := p.sources }

/-- The failure to make use of a grammar. -/
def unusable (source : String) (e : EngineError) : Failure :=
  .grammar source e.message

/-- Compiles the shipped grammars, the schema first; an unusable schema ends the matter. -/
def shipped (b : Backend G) : GrammarLoad G Failure :=
  let s := Validator.compile b .schema Shipped.schemaText.toUTF8
  match s.outcome with
  | .error e =>
    { outcome := .error (unusable Shipped.schemaName e), schemaSources := s.sources }
  | .ok schema =>
    let p := Validator.compile b .pattern Shipped.patternText.toUTF8
    { outcome :=
        (p.outcome.mapError (unusable Shipped.patternName)).map
          (fun pattern => { schema := schema, pattern := pattern })
      schemaSources := s.sources
      patternSources := p.sources }

/-- The bytes of a grammar and the name under which it is known. -/
def source (files : Files.Volume) (path : Option String) (shippedName shippedText : String) :
    Except Failure (String × ByteArray) :=
  match path with
  | none => .ok (shippedName, shippedText.toUTF8)
  | some path =>
    match files.read path with
    | .ok content => .ok (path, content)
    | .error e => .error (.grammar path e.message)

/-- Both grammars, if both are usable. -/
def ofOutcomes (schema pattern : Except Failure (Validator G)) : Except Failure (GrammarSet G) := do
  let schema ← schema
  let pattern ← pattern
  .ok { schema := schema, pattern := pattern }

/-- Reads and compiles the grammars at the given paths. -/
def load (b : Backend G) (files : Files.Volume) (paths : GrammarPaths) : GrammarLoad G Failure :=
  match source files paths.schema Shipped.schemaName Shipped.schemaText with
  | .error e => { outcome := .error e }
  | .ok (schemaName, schema) =>
    match source files paths.pattern Shipped.patternName Shipped.patternText with
    | .error e => { outcome := .error e }
    | .ok (patternName, pattern) =>
      let s := Validator.compile b .schema schema
      let p := Validator.compile b .pattern pattern
      { outcome :=
          ofOutcomes (s.outcome.mapError (unusable schemaName))
            (p.outcome.mapError (unusable patternName))
        schemaSources := s.sources
        patternSources := p.sources }

end GrammarSet

end VideoCatalog
