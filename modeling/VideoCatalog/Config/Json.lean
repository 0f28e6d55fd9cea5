import VideoCatalog.Config
import VideoCatalog.Record.Json

/-!
The JSON form of the settings. Every section and every setting may be left out; those that may be
absent are `null` then.
-/

namespace VideoCatalog

namespace Json.Reader

/-- A number of at most 64 bits. -/
def count : Reader Nat := fun cs => do
  let (i, rest) ← integer 0 (UInt64.size - 1) cs
  .ok (i.toNat, rest)

/-- One of some words, written as a text, or as the only member of an object with no value. -/
def choice {α : Type} (ofLabel? : String → Option α) : Reader α := fun cs =>
  let chosen (word : String) (rest : List Char) : Except Fault (α × List Char) :=
    match ofLabel? word with
    | some a => .ok (a, rest)
    | none => .error .mistyped
  match skipGap cs with
  | '\x22' :: rest => do
    let (word, rest) ← quoted rest
    chosen word rest
  | '\x7b' :: rest => do
    match ← nextName true rest with
    | (none, _) => .error .malformed
    | (some name, rest) => do
      let (_, rest) ← colon rest
      let (a, rest) ← chosen name rest
      match skipGap rest with
      | 'n' :: rest => do
        let (_, rest) ← word "ull".toList rest
        match skipGap rest with
        | '\x7d' :: rest => .ok (a, rest)
        | [] => .error .truncated
        | _ => .error .malformed
      | rest => .error (refuse rest)
  | rest => .error (refuse rest)

end Json.Reader

open Json.Reader (field)

/-- An optional text that is also written when it is absent. -/
def optionalText (s : Option String) : Json :=
  Json.ofOption .string s

namespace GrammarPaths

/-- The members of the section. -/
def fields : List (Json.Reader.Field GrammarPaths) :=
  [field "xsd" (Json.Reader.optional Json.Reader.string) (fun v s => { s with schema := v }),
    field "rng" (Json.Reader.optional Json.Reader.string) (fun v s => { s with pattern := v })]

/-- The section as JSON. -/
def toJson (s : GrammarPaths) : Json :=
  .object [("xsd", optionalText s.schema), ("rng", optionalText s.pattern)]

end GrammarPaths

namespace ValidationSettings

/-- The members of the section. -/
def fields : List (Json.Reader.Field ValidationSettings) :=
  [field "threads" (Json.Reader.optional Json.Reader.count) (fun v s => { s with threads := v }),
    field "fail_fast" Json.Reader.truth (fun v s => { s with failFast := v }),
    field "grammar" (Json.Reader.choice GrammarChoice.ofLabel?)
      (fun v s => { s with grammar := v }),
    field "timeout_seconds" Json.Reader.count (fun v s => { s with timeoutSeconds := v })]

/-- The section as JSON. -/
def toJson (s : ValidationSettings) : Json :=
  .object
    [("threads", Json.ofOption .ofNat s.threads), ("fail_fast", .bool s.failFast),
      ("grammar", .string s.grammar.label), ("timeout_seconds", .ofNat s.timeoutSeconds)]

end ValidationSettings

namespace SearchSettings

/-- The members of the section. -/
def fields : List (Json.Reader.Field SearchSettings) :=
  [field "snapshot_path" (Json.Reader.optional Json.Reader.string)
    (fun v s => { s with snapshotPath := v })]

/-- The section as JSON. -/
def toJson (s : SearchSettings) : Json :=
  .object [("snapshot_path", optionalText s.snapshotPath)]

end SearchSettings

namespace OutputSettings

/-- The members of the section. -/
def fields : List (Json.Reader.Field OutputSettings) :=
  [field "format" (Json.Reader.choice OutputFormat.ofLabel?) (fun v s => { s with format := v }),
    field "verbose" Json.Reader.truth (fun v s => { s with verbose := v }),
    field "quiet" Json.Reader.truth (fun v s => { s with quiet := v })]

/-- The section as JSON. -/
def toJson (s : OutputSettings) : Json :=
  .object
    [("format", .string s.format.label), ("verbose", .bool s.verbose), ("quiet", .bool s.quiet)]

end OutputSettings

namespace FileRules

/-- The members of the section. -/
def fields : List (Json.Reader.Field FileRules) :=
  [field "extensions" (Json.Reader.list Json.Reader.string)
      (fun v s => { s with extensions := v }),
    field "include_patterns" (Json.Reader.list Json.Reader.string)
      (fun v s => { s with includePatterns := v }),
    field "exclude_patterns" (Json.Reader.list Json.Reader.string)
      (fun v s => { s with excludePatterns := v }),
    field "max_depth" (Json.Reader.optional Json.Reader.count)
      (fun v s => { s with maxDepth := v })]

/-- The section as JSON. -/
def toJson (s : FileRules) : Json :=
  .object
    [("extensions", .ofStrings s.extensions), ("include_patterns", .ofStrings s.includePatterns),
      ("exclude_patterns", .ofStrings s.excludePatterns),
      ("max_depth", Json.ofOption .ofNat s.maxDepth)]

/-- The section that a JSON text holds. -/
def ofJsonText (text : String) : Except Json.Fault FileRules :=
  Json.Reader.read (Json.Reader.record fields {}) text

end FileRules

namespace Config

/-- The members of the settings. -/
def fields : List (Json.Reader.Field Config) :=
  [field "schemas" (Json.Reader.record GrammarPaths.fields {})
      (fun v c => { c with schemas := v }),
    field "validation" (Json.Reader.record ValidationSettings.fields {})
      (fun v c => { c with validation := v }),
    field "search" (Json.Reader.record SearchSettings.fields {})
      (fun v c => { c with search := v }),
    field "output" (Json.Reader.record OutputSettings.fields {})
      (fun v c => { c with output := v }),
    field "files" (Json.Reader.record FileRules.fields {}) (fun v c => { c with files := v })]

/-- The settings as JSON. -/
def toJson (c : Config) : Json :=
  .object
    [("schemas", c.schemas.toJson), ("validation", c.validation.toJson),
      ("search", c.search.toJson), ("output", c.output.toJson), ("files", c.files.toJson)]

/-- The settings that a JSON text holds. -/
def ofJsonText (text : String) : Except Json.Fault Config :=
  Json.Reader.read (Json.Reader.record fields {}) text

end Config

end VideoCatalog
