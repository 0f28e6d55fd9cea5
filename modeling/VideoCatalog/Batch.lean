import VideoCatalog.Config
import VideoCatalog.Failure
import VideoCatalog.Number.Duration

/-!
Checking many documents. Every document gets a result of its own, and the results are in the order
of the files, whatever order the work is done in. With `failFast` the files behind the first one
that is not accepted are skipped.
-/

namespace VideoCatalog

/-- How a batch is checked. -/
structure BatchSettings where
  /-- How many documents are checked side by side. -/
  concurrent : Nat := 1
  timeoutSeconds : Nat := 30
  failFast : Bool := false
  grammar : GrammarChoice := .schema
  deriving DecidableEq

namespace BatchSettings

/-- The settings for a machine with some processors. -/
def ofConfig (c : Config) (processors : Nat) : BatchSettings where
  concurrent := c.validation.threads.getD processors
  timeoutSeconds := c.validation.timeoutSeconds
  failFast := c.validation.failFast
  grammar := c.validation.grammar

end BatchSettings

/-- What has come of checking one file. -/
inductive FileOutcome where
  /-- The document is accepted. -/
  | valid
  /-- The document violates a grammar or is not well-formed, and so many violations were counted. -/
  | invalid (count : Nat)
  /-- The file could not be checked. -/
  | failed (message : String)
  /-- The file was not checked. -/
  | skipped (reason : String)
  deriving DecidableEq

namespace FileOutcome

/-- Whether the document is accepted. -/
def isValid : FileOutcome → Bool
  | .valid => true
  | _ => false

/-- Whether the document is rejected. -/
def isInvalid : FileOutcome → Bool
  | .invalid _ => true
  | _ => false

/-- Whether the file could not be checked. -/
def isFailed : FileOutcome → Bool
  | .failed _ => true
  | _ => false

/-- Whether the file was not checked. -/
def isSkipped : FileOutcome → Bool
  | .skipped _ => true
  | _ => false

/-- The number of violations that were counted. -/
def violationCount : FileOutcome → Nat
  | .invalid count => count
  | _ => 0

end FileOutcome

/-- One file, what has come of checking it, by which grammar, how long it took, and all that there
is to say about it. -/
structure FileResult where
  path : RawText
  outcome : FileOutcome
  grammar : GrammarChoice := .schema
  duration : Duration := {}
  details : List String := []
  deriving DecidableEq

namespace FileResult

/-- The result for a document that is accepted. -/
def valid (path : RawText) (grammar : GrammarChoice) (duration : Duration := {}) : FileResult :=
  { path := path, outcome := .valid, grammar := grammar, duration := duration }

/-- The result for a document with these violations. -/
def invalid (path : RawText) (grammar : GrammarChoice) (violations : List String)
    (duration : Duration := {}) : FileResult :=
  { path := path, outcome := .invalid violations.length, grammar := grammar, duration := duration
    details := violations }

/-- The result for a file that could not be checked. -/
def failed (path : RawText) (grammar : GrammarChoice) (failure : Failure)
    (duration : Duration := {}) : FileResult :=
  { path := path, outcome := .failed failure.message, grammar := grammar, duration := duration
    details := [failure.message] }

/-- The result for a file that was not checked. -/
def skipped (path : RawText) (grammar : GrammarChoice) (reason : String) : FileResult :=
  { path := path, outcome := .skipped reason, grammar := grammar, details := [reason] }

/-- The result for a document that a check has found to have these violations, or none. -/
def ofResult (path : RawText) (grammar : GrammarChoice) (r : ValidationResult) : FileResult :=
  if r.isValid then valid path grammar else invalid path grammar r.errors

end FileResult

/-- Figures on the work. -/
structure Metrics where
  total : Duration := {}
  discovery : Duration := {}
  validation : Duration := {}
  average : Duration := {}
  /-- Files in a second. -/
  throughput : Double := .zero
  concurrent : Nat := 0
  deriving DecidableEq

/-- The results of a batch, and figures on the work. -/
structure BatchReport where
  files : List FileResult := []
  metrics : Metrics := {}

namespace Metrics

/-- The time for one of so many files. -/
def averageOf (total : Duration) (count : Nat) : Duration :=
  if count = 0 || UInt32.size ≤ count then {} else total.share count

/-- The number of files in a second. -/
def throughputOf (count : Nat) (elapsed : Duration) : Double :=
  if elapsed.inSeconds.isZero then .zero
  else (Double.ofNat count).quotient elapsed.inSeconds

/-- The figures that results by themselves give. -/
def ofResults (files : List FileResult) : Metrics :=
  let time := files.foldl (fun t f => t.add f.duration) {}
  { total := time
    validation := time
    average := averageOf time files.length
    throughput := throughputOf files.length time
    concurrent := 1 }

end Metrics

namespace BatchReport

/-- A report with the figures that the results by themselves give. -/
def ofResults (files : List FileResult) : BatchReport :=
  { files := files, metrics := .ofResults files }

/-- The number of results that pass a test. -/
def count (r : BatchReport) (test : FileOutcome → Bool) : Nat :=
  r.files.countP (fun f => test f.outcome)

/-- The number of documents accepted. -/
def valid (r : BatchReport) : Nat := r.count FileOutcome.isValid

/-- The number of documents rejected. -/
def invalid (r : BatchReport) : Nat := r.count FileOutcome.isInvalid

/-- The number of files that could not be checked. -/
def failed (r : BatchReport) : Nat := r.count FileOutcome.isFailed

/-- The number of files that were not checked. -/
def skipped (r : BatchReport) : Nat := r.count FileOutcome.isSkipped

/-- The number of violations in all documents. -/
def violations (r : BatchReport) : Nat :=
  r.files.foldr (fun f n => f.outcome.violationCount + n) 0

/-- Whether there are documents and all are accepted. -/
def allValid (r : BatchReport) : Bool :=
  r.valid == r.files.length && 0 < r.files.length

/-- Whether a document is rejected or could not be checked. -/
def hasErrors (r : BatchReport) : Bool :=
  0 < r.failed || 0 < r.invalid

/-- How many of a hundred documents are accepted. -/
def successRate (r : BatchReport) : Double :=
  if r.files.isEmpty then .zero
  else ((Double.ofNat r.valid).quotient (Double.ofNat r.files.length)).product (Double.ofNat 100)

end BatchReport

namespace Batch

variable {G : Type}

/-- What has come of one file. -/
def checkFile (b : Backend G) (g : GrammarSet G) (files : Files.Volume) (choice : GrammarChoice)
    (path : RawText) : FileResult :=
  match files.readText path with
  | .error e => .failed path choice (.io e)
  | .ok text => .ofResult path choice (g.validate b choice text)

/-- Why a file is not checked. -/
def skipReason : String :=
  "An earlier document was rejected (fail-fast)"

/-- The result for a file that is not checked. -/
def skip (choice : GrammarChoice) (path : RawText) : FileResult :=
  .skipped path choice skipReason

/-- The results for files one after the other; `stopped` says that no more are to be checked. -/
def checkAll (check : RawText → FileResult) (skip : RawText → FileResult) (failFast : Bool) :
    Bool → List RawText → List FileResult
  | _, [] => []
  | stopped, path :: paths =>
    let result := if stopped then skip path else check path
    result :: checkAll check skip failFast (stopped || (failFast && !result.outcome.isValid)) paths

/-- The results for files in their order. -/
def checkFiles (b : Backend G) (g : GrammarSet G) (files : Files.Volume) (s : BatchSettings)
    (paths : List RawText) : List FileResult :=
  checkAll (checkFile b g files s.grammar) (skip s.grammar) s.failFast false paths

/-- The report on all files that a filter accepts at a path or below it. -/
def checkPath (b : Backend G) (g : GrammarSet G) (files : Files.Volume) (s : BatchSettings)
    (filter : FileFilter) (path : RawText) : Except Failure BatchReport := do
  let paths ← (Discovery.files filter files false path).mapError .io
  .ok {
    files := checkFiles b g files s paths
    metrics := { concurrent := s.concurrent } }

end Batch

end VideoCatalog
