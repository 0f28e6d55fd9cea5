import VideoCatalog.Config
import VideoCatalog.Toml.Reader

/-!
The TOML form of the settings. A section is a table, or an array of its settings in order; whatever
is not asked for is passed over.
-/

namespace VideoCatalog

namespace Toml

/-- A known member of a table: its name, and how its value changes what has been read so far. -/
structure Field (σ : Type) where
  name : String
  value : Value → Option (σ → σ)

/-- The member whose value is read by `read` and stored by `put`. -/
def field {σ α : Type} (name : String) (read : Value → Option α) (put : α → σ → σ) : Field σ :=
  ⟨name, fun v => (read v).map put⟩

/-- A text. -/
def text? : Value → Option String
  | .string s => some s
  | _ => none

/-- A number of at most 64 bits. -/
def count? : Value → Option Nat
  | .integer i => if 0 ≤ i && i < UInt64.size then some i.toNat else none
  | _ => none

/-- A truth value. -/
def truth? : Value → Option Bool
  | .boolean b => some b
  | _ => none

/-- The items of an array, however it is written. -/
def items? : Value → Option (List Value)
  | .array vs => some vs
  | .tables vs => some vs
  | _ => none

/-- Texts in an array. -/
def texts? (v : Value) : Option (List String) :=
  (items? v).bind (fun vs => vs.mapM text?)

/-- Whether a value is an array or a table without anything in it. -/
def isEmpty : Value → Bool
  | .array [] => true
  | .table _ [] => true
  | _ => false

/-- One of some words, as a text, or as the only key of a table with nothing under it. -/
def choice? {α : Type} (ofLabel? : String → Option α) : Value → Option α
  | .string s => ofLabel? s
  | .table _ [(name, v)] => if isEmpty v then ofLabel? name else none
  | _ => none

/-- The known members of a table over a starting value. -/
def members? {σ : Type} (fields : List (Field σ)) (ms : Members) (start : σ) : Option σ :=
  ms.foldlM (fun s m =>
    match fields.find? (fun f => f.name == m.1) with
    | some f => (f.value m.2).map (fun put => put s)
    | none => some s) start

/-- The members in order over a starting value. -/
def positions? {σ : Type} : List (Field σ) → List Value → σ → Option σ
  | f :: fields, v :: vs, s => do
    let put ← f.value v
    positions? fields vs (put s)
  | _, _, s => some s

/-- A section over a starting value. A date has no members that anyone asks for. -/
def section? {σ : Type} (fields : List (Field σ)) (start : σ) : Value → Option σ
  | .table _ ms => members? fields ms start
  | .array vs => positions? fields vs start
  | .tables vs => positions? fields vs start
  | .datetime => some start
  | _ => none

end Toml

namespace Config

/-- The settings of the section on grammars. -/
def schemaSettings : List (Toml.Field GrammarPaths) :=
  [Toml.field "xsd" Toml.text? (fun v s => { s with schema := some v }),
    Toml.field "rng" Toml.text? (fun v s => { s with pattern := some v })]

/-- The settings of the section on checking. -/
def validationSettings : List (Toml.Field ValidationSettings) :=
  [Toml.field "threads" Toml.count? (fun v s => { s with threads := some v }),
    Toml.field "fail_fast" Toml.truth? (fun v s => { s with failFast := v }),
    Toml.field "grammar" (Toml.choice? GrammarChoice.ofLabel?) (fun v s => { s with grammar := v }),
    Toml.field "timeout_seconds" Toml.count? (fun v s => { s with timeoutSeconds := v })]

/-- The settings of the section on searching. -/
def searchSettings : List (Toml.Field SearchSettings) :=
  [Toml.field "snapshot_path" Toml.text? (fun v s => { s with snapshotPath := some v })]

/-- The settings of the section on output. -/
def outputSettings : List (Toml.Field OutputSettings) :=
  [Toml.field "format" (Toml.choice? OutputFormat.ofLabel?) (fun v s => { s with format := v }),
    Toml.field "verbose" Toml.truth? (fun v s => { s with verbose := v }),
    Toml.field "quiet" Toml.truth? (fun v s => { s with quiet := v })]

/-- The settings of the section on files. -/
def fileSettings : List (Toml.Field FileRules) :=
  [Toml.field "extensions" Toml.texts? (fun v s => { s with extensions := v }),
    Toml.field "include_patterns" Toml.texts? (fun v s => { s with includePatterns := v }),
    Toml.field "exclude_patterns" Toml.texts? (fun v s => { s with excludePatterns := v }),
    Toml.field "max_depth" Toml.count? (fun v s => { s with maxDepth := some v })]

/-- The sections. -/
def sections : List (Toml.Field Config) :=
  [Toml.field "schemas" (Toml.section? schemaSettings {}) (fun v c => { c with schemas := v }),
    Toml.field "validation" (Toml.section? validationSettings {})
      (fun v c => { c with validation := v }),
    Toml.field "search" (Toml.section? searchSettings {}) (fun v c => { c with search := v }),
    Toml.field "output" (Toml.section? outputSettings {}) (fun v c => { c with output := v }),
    Toml.field "files" (Toml.section? fileSettings {}) (fun v c => { c with files := v })]

/-- The settings that a TOML text holds. -/
def ofTomlText? (text : String) : Option Config := do
  let ms ← Toml.parse? text
  Toml.members? sections ms {}

end Config

end VideoCatalog
