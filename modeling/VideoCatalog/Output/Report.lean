import VideoCatalog.Batch
import VideoCatalog.Import

/-!
Reports for the user: on a batch of checked documents, on an import and on a search, each in the
form of the output that was asked for. JSON holds text only, so there is no such report on a file
whose path is no text.
-/

namespace VideoCatalog

/-- How reports are written. -/
structure Presentation where
  verbosity : Verbosity := .normal
  format : OutputFormat := .human
  colors : Bool := false
  deriving DecidableEq

/-- The colours of words in reports. -/
inductive Color where
  | red
  | green
  | yellow
  | cyan
  deriving DecidableEq

namespace Color

/-- The number of the colour on a terminal. -/
def code : Color → String
  | .red => "31"
  | .green => "32"
  | .yellow => "33"
  | .cyan => "36"

end Color

namespace Presentation

/-- A text in a colour, if reports have colours. -/
def paint (p : Presentation) (color : Color) (text : String) : String :=
  if p.colors then "\x1b[" ++ color.code ++ "m" ++ text ++ "\x1b[0m" else text

/-- Whether every file is shown. -/
def isVerbose (p : Presentation) : Bool :=
  p.verbosity = .verbose

/-- Whether only rejections and failures are shown. -/
def isQuiet (p : Presentation) : Bool :=
  p.verbosity = .quiet

/-- Lines of detail below a line. -/
def detailLines (details : List String) : String :=
  String.join (details.map (fun d => "\n    " ++ d))

/-- A report in the form that was asked for: in JSON, if that is to be had, or in lines. -/
def reportText (p : Presentation) (json? : Option Json) (lines : String) : Except Failure String :=
  if p.format = .json then
    match json? with
    | some json => .ok json.pretty
    | none => .error .pathNotText
  else .ok lines

/-! ## Batches -/

/-- The line on one file, with its violations below it. -/
def fileText (p : Presentation) (f : FileResult) : String :=
  match f.outcome with
  | .valid => p.paint .green "✓ VALID" ++ "  " ++ f.path.shown ++ " (" ++ f.duration.text ++ ")"
  | .invalid count =>
    p.paint .red "✗ INVALID" ++ "  " ++ f.path.shown ++ " (" ++ f.duration.text ++ ") - " ++
      toString count ++ " error" ++ (if count = 1 then "" else "s") ++
      (if p.isQuiet then "" else detailLines f.details)
  | .failed message => p.paint .yellow "⚠ ERROR" ++ "  " ++ f.path.shown ++ " - " ++ message
  | .skipped reason => p.paint .cyan "- SKIPPED" ++ "  " ++ f.path.shown ++ " - " ++ reason

/-- The figures on the work. -/
def metricsText (m : Metrics) : String :=
  "\nPerformance Metrics:\n" ++
    "  Discovery: " ++ m.discovery.text ++ "\n" ++
    "  Validation: " ++ m.validation.text ++ "\n" ++
    "  Throughput: " ++ Decimal.fixed 1 m.throughput ++ " files/sec\n" ++
    "  Concurrent validations: " ++ toString m.concurrent ++ "\n"

/-- The summary of a batch. -/
def summaryText (p : Presentation) (r : BatchReport) : String :=
  "Validation Summary:\n" ++
    "  Total files: " ++ toString r.files.length ++ "\n" ++
    "  " ++ p.paint .green "Valid:" ++ " " ++ toString r.valid ++ "\n" ++
    (if 0 < r.invalid then
      "  " ++ p.paint .red "Invalid:" ++ " " ++ toString r.invalid ++ " (" ++
        toString r.violations ++ " violations)\n"
    else "") ++
    (if 0 < r.failed then
      "  " ++ p.paint .yellow "Errors:" ++ " " ++ toString r.failed ++ "\n"
    else "") ++
    (if 0 < r.skipped then
      "  " ++ p.paint .cyan "Skipped:" ++ " " ++ toString r.skipped ++ "\n"
    else "") ++
    "  Success rate: " ++ Decimal.fixed 1 r.successRate ++ "%\n" ++
    "  Duration: " ++ r.metrics.total.text ++ "\n" ++
    (if p.isVerbose then metricsText r.metrics else "")

/-- The lines on some files. -/
def fileLines (p : Presentation) (files : List FileResult) : String :=
  String.join (files.map (fun f => p.fileText f ++ "\n"))

/-- An outcome as the members of a JSON object. -/
def outcomeMembers : FileOutcome → List (String × Json)
  | .valid => [("status", .string "valid")]
  | .invalid count => [("status", .string "invalid"), ("error_count", .ofNat count)]
  | .failed message => [("status", .string "error"), ("message", .string message)]
  | .skipped reason => [("status", .string "skipped"), ("reason", .string reason)]

/-- A result as JSON, if its path is text. -/
def fileJson? (f : FileResult) : Option Json :=
  f.path.text?.map (fun path =>
    .object <|
      [("path", .string path)] ++ outcomeMembers f.outcome ++
        [("grammar", .string f.grammar.label), ("duration", f.duration.toJson),
          ("error_details", .ofStrings f.details)])

/-- A number as JSON; what is not finite has no numeral. -/
def doubleJson (x : Double) : Json :=
  match Decimal.shortest? x with
  | some numeral => .number numeral
  | none => .null

/-- The figures on the work as JSON. -/
def metricsJson (m : Metrics) : Json :=
  .object
    [("total_duration", m.total.toJson), ("discovery_duration", m.discovery.toJson),
      ("validation_duration", m.validation.toJson), ("average_time_per_file", m.average.toJson),
      ("throughput_files_per_second", doubleJson m.throughput),
      ("concurrent_validations", .ofNat m.concurrent)]

/-- A batch as JSON, if all paths are text. -/
def batchJson? (r : BatchReport) : Option Json :=
  (r.files.mapM fileJson?).map (fun files =>
    .object
      [("total_files", .ofNat r.files.length), ("valid_files", .ofNat r.valid),
        ("invalid_files", .ofNat r.invalid), ("error_files", .ofNat r.failed),
        ("skipped_files", .ofNat r.skipped), ("total_errors", .ofNat r.violations),
        ("file_results", .array files), ("performance_metrics", metricsJson r.metrics)])

/-- The report on a batch for a reader. -/
def batchLines (p : Presentation) (r : BatchReport) : String :=
  let rejected := r.files.filter (fun f => !f.outcome.isValid)
  match p.format, p.verbosity with
  | _, .quiet => p.fileLines rejected
  | .summary, _ => p.summaryText r
  | _, .verbose => p.fileLines r.files ++ p.summaryText r
  | _, .normal => p.fileLines rejected ++ p.summaryText r

/-- The report on a batch. -/
def batchText (p : Presentation) (r : BatchReport) : Except Failure String :=
  p.reportText (batchJson? r) (p.batchLines r)

/-! ## Imports -/

/-- The line on one file, with the reasons of its refusal below it. -/
def importLine (p : Presentation) (f : FileImport) : String :=
  match f.status with
  | .imported id =>
    p.paint .green "✓ IMPORTED" ++ "  " ++ f.path.shown ++ " (id " ++ toString id.toInt ++ ")"
  | .rejected errors => p.paint .red "✗ REJECTED" ++ "  " ++ f.path.shown ++ detailLines errors
  | .skipped => p.paint .cyan "- SKIPPED" ++ "  " ++ f.path.shown
  | .failed message => p.paint .yellow "⚠ ERROR" ++ "  " ++ f.path.shown ++ " - " ++ message

/-- The summary of an import. -/
def importSummary (r : ImportReport) : String :=
  "Import Summary: " ++ toString r.imported ++ " imported, " ++ toString r.rejected ++
    " rejected, " ++ toString r.skipped ++ " skipped, " ++ toString r.failed ++ " failed\n"

/-- The report on an import for a reader. -/
def importLines (p : Presentation) (r : ImportReport) : String :=
  let shown := r.files.filter (fun f => p.isVerbose || !f.status.isImported)
  let lines := String.join (shown.map (fun f => p.importLine f ++ "\n"))
  (if p.format = .human then lines else "") ++ (if p.isQuiet then "" else importSummary r)

/-- The report on an import. -/
def importText (p : Presentation) (r : ImportReport) : Except Failure String :=
  p.reportText r.toJson? (p.importLines r)

/-! ## Searches -/

/-- The lines on one record that was found. -/
def recordText (p : Presentation) (r : Record) : String :=
  p.paint .cyan ("#" ++ toString r.id.toInt) ++ "  " ++ r.title ++ " by " ++ r.author ++ "\n" ++
    (if p.isVerbose && r.url ≠ "" then "    " ++ r.url ++ "\n" else "")

/-- The summary of a search. -/
def searchSummary (term : String) (count : Nat) : String :=
  toString count ++ " match" ++ (if count = 1 then "" else "es") ++ " for \"" ++ term ++ "\"\n"

/-- The report on a search. -/
def searchText (p : Presentation) (term : String) (records : List Record) : String :=
  let summary := if p.isQuiet then "" else searchSummary term records.length
  match p.format with
  | .json =>
    (Json.object
      [("term", .string term), ("matches", .ofNat records.length),
        ("records", .array (records.map Record.toJson))]).pretty
  | .human => String.join (records.map p.recordText) ++ summary
  | .summary => summary

end Presentation

end VideoCatalog
