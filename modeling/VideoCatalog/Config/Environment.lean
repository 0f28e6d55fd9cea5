import VideoCatalog.Config
import VideoCatalog.Text.Integer
import VideoCatalog.Text.LowerCase

/-!
Settings from the environment. Each variable that is set decides one setting; the first one, in the
order below, whose value has the wrong form is the error. Numbers and truth values are trimmed,
words are taken in any case, and paths are taken as they are.
-/

namespace VideoCatalog

/-- The values of variables. One that is not set has none, nor has one whose value is no text. -/
abbrev Environment := String → Option String

namespace Environment

/-- How the names of the variables begin. -/
def nameStart : String :=
  "METADATA_VERIFY_"

/-- The names of the variables, without their common beginning, in the order in which they count. -/
def names : List String :=
  ["XSD", "RNG", "THREADS", "FAIL_FAST", "TIMEOUT", "GRAMMAR", "SNAPSHOT", "VERBOSE", "QUIET",
    "FORMAT", "EXTENSIONS"]

/-- What a text denotes, after white space at its ends is dropped. -/
def trimmed {α : Type} (read : String → Option α) (s : String) : Option α :=
  read (Text.trim s)

/-- What a word denotes in lower case. -/
def anyCase {α : Type} (read : String → Option α) (s : String) : Option α :=
  read (Text.toLower s)

/-- The truth value that a word stands for. -/
def truth? (s : String) : Option Bool :=
  if s = "true" then some true else if s = "false" then some false else none

/-- The settings after one variable: `put` stores what `read` makes of its value. -/
def apply {α : Type} (env : Environment) (name : String) (read : String → Option α)
    (put : α → Config → Config) (c : Config) : Except ConfigError Config :=
  match env (nameStart ++ name) with
  | none => .ok c
  | some value =>
    match read value with
    | some a => .ok (put a c)
    | none => .error (.environment (nameStart ++ name) value)

end Environment

open Environment (apply trimmed anyCase)

namespace Config

/-- The settings with those of the environment above them. -/
def withEnvironment (c : Config) (env : Environment) : Except ConfigError Config := do
  let c ← apply env "XSD" some
    (fun v c => { c with schemas := { c.schemas with schema := some v } }) c
  let c ← apply env "RNG" some
    (fun v c => { c with schemas := { c.schemas with pattern := some v } }) c
  let c ← apply env "THREADS" (trimmed Text.count?)
    (fun v c => { c with validation := { c.validation with threads := some v } }) c
  let c ← apply env "FAIL_FAST" (trimmed Environment.truth?)
    (fun v c => { c with validation := { c.validation with failFast := v } }) c
  let c ← apply env "TIMEOUT" (trimmed Text.count?)
    (fun v c => { c with validation := { c.validation with timeoutSeconds := v } }) c
  let c ← apply env "GRAMMAR" (anyCase GrammarChoice.ofLabel?)
    (fun v c => { c with validation := { c.validation with grammar := v } }) c
  let c ← apply env "SNAPSHOT" some
    (fun v c => { c with search := { snapshotPath := some v } }) c
  let c ← apply env "VERBOSE" (trimmed Environment.truth?)
    (fun v c => { c with output := { c.output with verbose := v } }) c
  let c ← apply env "QUIET" (trimmed Environment.truth?)
    (fun v c => { c with output := { c.output with quiet := v } }) c
  let c ← apply env "FORMAT" (anyCase OutputFormat.ofLabel?)
    (fun v c => { c with output := { c.output with format := v } }) c
  apply env "EXTENSIONS" some
    (fun v c => { c with files := { c.files with extensions := Text.commaList v } }) c

end Config

end VideoCatalog
