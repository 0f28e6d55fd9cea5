import VideoCatalog.CommandLine
import VideoCatalog.Discovery
import VideoCatalog.GrammarSet.Loading

/-!
The settings, and how they come about in layers: defaults, a file, the environment, the command
line. Each layer sets some fields and leaves the others as the layers below it have set them; the
result has to make sense as a whole.
-/

namespace VideoCatalog

/-- Settings for checking documents. -/
structure ValidationSettings where
  /-- How many documents are checked side by side; as many as there are processors if not given. -/
  threads : Option Nat := none
  /-- Whether to stop after the first document that is not accepted. -/
  failFast : Bool := false
  grammar : GrammarChoice := .schema
  /-- The time for one document. -/
  timeoutSeconds : Nat := 30
  deriving DecidableEq

/-- Settings for searching. -/
structure SearchSettings where
  /-- Where to leave the snapshot of each search. -/
  snapshotPath : Option String := none
  deriving DecidableEq

/-- Settings for showing results. -/
structure OutputSettings where
  format : OutputFormat := .human
  verbose : Bool := false
  quiet : Bool := false
  deriving DecidableEq

/-- All settings. -/
structure Config where
  schemas : GrammarPaths := {}
  validation : ValidationSettings := {}
  search : SearchSettings := {}
  output : OutputSettings := {}
  files : FileRules := {}
  deriving DecidableEq

/-- Why settings do not make sense. -/
inductive BadSetting where
  | noThreads
  | tooManyThreads
  | noTimeout
  | verboseAndQuiet
  | noExtension
  | badExtension (extension : String)
  deriving DecidableEq

namespace BadSetting

/-- The wording of the reason. -/
def message : BadSetting → String
  | .noThreads => "Number of threads must be greater than 0"
  | .tooManyThreads => "Number of threads cannot exceed 1000"
  | .noTimeout => "Timeout must be greater than 0"
  | .verboseAndQuiet => "Cannot enable both verbose and quiet modes"
  | .noExtension => "At least one file extension must be specified"
  | .badExtension e => "Invalid file extension: " ++ e

end BadSetting

/-- Why the settings cannot be had. -/
inductive ConfigError where
  /-- The file cannot be read. -/
  | io (error : Files.IoError)
  /-- The file is no TOML, or TOML of another form. -/
  | toml
  /-- The file is no JSON, or JSON of another form. -/
  | json
  | validation (reason : BadSetting)
  /-- A variable of the environment has a value of the wrong form. -/
  | environment (variableName value : String)
  /-- The name of the file has another extension. -/
  | unsupportedFormat (extension : String)
  deriving DecidableEq

namespace ConfigError

/-- The wording of the error. -/
def message : ConfigError → String
  | .io error => "IO error: " ++ error.message
  | .toml => "TOML parsing error: the file does not hold settings"
  | .json => "JSON parsing error: the file does not hold settings"
  | .validation reason => "Configuration validation error: " ++ reason.message
  | .environment name value =>
    "Environment variable error: Invalid " ++ name ++ " value: " ++ value
  | .unsupportedFormat extension => "Unsupported configuration file format: " ++ extension

/-- The wording of what lies behind the error, if it names something. -/
def cause? : ConfigError → Option String
  | .io error => some error.message
  | _ => none

end ConfigError

/-- The upper one of two lists of settings, unless it is empty. -/
def overList (upper lower : List String) : List String :=
  if upper.isEmpty then lower else upper

namespace Config

/-- The settings of a file above others. What a file cannot leave out counts as set by it: all but
the paths, the number of threads, the lists of files and the depth. -/
def above (upper lower : Config) : Config where
  schemas :=
    { schema := upper.schemas.schema.or lower.schemas.schema
      pattern := upper.schemas.pattern.or lower.schemas.pattern }
  validation :=
    { upper.validation with threads := upper.validation.threads.or lower.validation.threads }
  search := { snapshotPath := upper.search.snapshotPath.or lower.search.snapshotPath }
  output := upper.output
  files :=
    { extensions := overList upper.files.extensions lower.files.extensions
      includePatterns := overList upper.files.includePatterns lower.files.includePatterns
      excludePatterns := overList upper.files.excludePatterns lower.files.excludePatterns
      maxDepth := upper.files.maxDepth.or lower.files.maxDepth }

/-- What shows how much is shown, with the options of a command line above it: each of the two
switches decides both fields. -/
def outputWith (o : Options) (lower : OutputSettings) : OutputSettings :=
  { format := o.format.getD lower.format
    verbose := if o.quiet then false else o.verbose || lower.verbose
    quiet := if o.quiet then true else if o.verbose then false else lower.quiet }

/-- The settings with the options of a command line above them. -/
def withOptions (lower : Config) (o : Options) : Config where
  schemas :=
    { schema := o.schema.or lower.schemas.schema
      pattern := o.pattern.or lower.schemas.pattern }
  validation :=
    { lower.validation with
      threads := o.threads.or lower.validation.threads
      failFast := o.failFast || lower.validation.failFast
      grammar := o.grammar.getD lower.validation.grammar }
  search := { snapshotPath := o.snapshot.or lower.search.snapshotPath }
  output := outputWith o lower.output
  files :=
    { lower.files with
      extensions := o.extensionList?.getD lower.files.extensions
      includePatterns := overList o.includePatterns lower.files.includePatterns
      excludePatterns := overList o.excludePatterns lower.files.excludePatterns }

/-- Whether an extension could not be one. -/
def isBadExtension (e : String) : Bool :=
  e.toList.any (fun c => c = '/' || c = '\x5c' || c = '.')

/-- The first reason why the settings do not make sense. -/
def fault? (c : Config) : Option BadSetting :=
  if c.validation.threads = some 0 then some .noThreads
  else if c.validation.threads.any (fun n => 1000 < n) then some .tooManyThreads
  else if c.validation.timeoutSeconds = 0 then some .noTimeout
  else if c.output.verbose && c.output.quiet then some .verboseAndQuiet
  else if c.files.extensions.isEmpty then some .noExtension
  else (c.files.extensions.find? isBadExtension).map .badExtension

/-- Refuses settings that do not make sense. -/
def validate (c : Config) : Except ConfigError Unit :=
  match c.fault? with
  | some reason => .error (.validation reason)
  | none => .ok ()

/-- How much is to be shown. -/
def verbosity (c : Config) : Verbosity :=
  .ofFlags c.output.verbose c.output.quiet

end Config

end VideoCatalog
