import VideoCatalog.Config.Loading
import VideoCatalog.CommandLine.Reader
import VideoCatalog.Output.Report

/-!
The program as a function: from a command line, the environment, the files and the XML engines to
an exit code, the two outputs and the files afterwards. Exit code 0 says that every document found
was accepted, 1 that at least one was not, and 2 that the program could not do its work or could not
report on it.
-/

namespace VideoCatalog

/-- All that a run depends on. -/
structure World where
  files : Files.Volume := {}
  environment : Environment := fun _ => none
  /-- The directory in which the user keeps settings. -/
  userDirectory : Option RawText := none
  processors : Nat := 1
  /-- Whether the output goes to a terminal. -/
  terminal : Bool := false

/-- What a run leaves behind. -/
structure Exit where
  code : Nat
  output : String := ""
  errors : String := ""
  files : Files.Volume

/-- Why a run cannot do its work: reasons from the outermost one to the one behind all others. -/
structure Fatal where
  reasons : List String

namespace Fatal

/-- One reason in front of others. -/
def within (context : String) (f : Fatal) : Fatal :=
  { reasons := context :: f.reasons }

/-- The reasons behind a failure. -/
def ofFailure (f : Failure) : Fatal :=
  { reasons := f.chain }

/-- The line on the error output. -/
def text (f : Fatal) : String :=
  "Error: " ++ Text.joinWith ": " f.reasons ++ "\n"

end Fatal

namespace Program

variable {G : Type}

/-- The exit code of a run that may have come upon documents that are not accepted. -/
def exitCode (hasErrors : Bool) : Nat :=
  if hasErrors then 1 else 0

/-- How reports are written. -/
def presentation (w : World) (c : Config) : Presentation where
  verbosity := c.verbosity
  format := c.output.format
  colors := c.output.format = .human && w.terminal

/-- The settings of the run. -/
def settings (w : World) (o : Options) : Except Fatal Config :=
  (Config.load w.files w.userDirectory w.environment o).mapError (fun e =>
    { reasons := "Failed to load configuration" :: e.message :: e.cause?.toList })

/-- The filter for files. -/
def filter (c : Config) : Except Fatal FileFilter :=
  (FileFilter.ofRules c.files).mapError (fun bad =>
    .ofFailure (.configuration bad.message))

/-- The grammars of the run. -/
def grammars (b : Backend G) (w : World) (c : Config) : Except Fatal (GrammarSet G) :=
  (GrammarSet.load b w.files c.schemas).outcome.mapError (fun f =>
    (Fatal.ofFailure f).within "Failed to load grammars")

/-- Shows the internal document of the record in a file. -/
def convert (w : World) (path : RawText) : Except Fatal Exit := do
  let text ← (w.files.readText path).mapError (fun e =>
    { reasons := ["Failed to read " ++ path.shown, e.message] : Fatal })
  let record ← (Record.ofJsonText text).mapError (fun _ =>
    { reasons := [path.shown ++ " is not a JSON record"] : Fatal })
  .ok { code := 0, output := (Video.ofRecord record).toXml, files := w.files }

/-- Checks the documents at a path and reports on it. -/
def validate (b : Backend G) (w : World) (c : Config) (f : FileFilter) (path : RawText) :
    Except Fatal Exit := do
  let g ← grammars b w c
  let report ←
    (Batch.checkPath b g w.files (.ofConfig c w.processors) f path).mapError Fatal.ofFailure
  let output ← ((presentation w c).batchText report).mapError Fatal.ofFailure
  .ok { code := exitCode report.hasErrors, output := output, files := w.files }

/-- Imports the documents at a path into an empty collection. -/
def importPath (b : Backend G) (w : World) (c : Config) (f : FileFilter) (path : RawText) :
    Except Fatal (ImportReport × Store) := do
  let g ← grammars b w c
  let paths ← (Discovery.files f w.files false path).mapError (fun e =>
    Fatal.ofFailure (.io e))
  .ok (Store.importFiles b g w.files c.validation.grammar c.validation.failFast paths {})

/-- Imports the documents at a path and reports on it. -/
def importFrom (b : Backend G) (w : World) (c : Config) (f : FileFilter) (path : RawText) :
    Except Fatal Exit := do
  let (report, _) ← importPath b w c f path
  let output ← ((presentation w c).importText report).mapError Fatal.ofFailure
  .ok { code := exitCode report.hasErrors, output := output, files := w.files }

/-- The report on an import that goes before a search: only for a reader who wants to see all. -/
def importNotice (w : World) (c : Config) (report : ImportReport) : Except Fatal String :=
  if report.hasErrors && c.output.verbose && c.output.format = .human then
    ((presentation w c).importText report).mapError Fatal.ofFailure
  else .ok ""

/-- The reasons why a search fails. -/
def searchFatal (e : SearchError) : Fatal :=
  .ofFailure (.search e)

/-- Imports the documents at a path, then searches them. -/
def search (b : Backend G) (w : World) (c : Config) (f : FileFilter) (path : RawText)
    (term : String) : Except Fatal Exit := do
  let (report, store) ← importPath b w c f path
  let notice ← importNotice w c report
  let run := Search.run b store.toList term
  let files := Search.keepSnapshot w.files c.search.snapshotPath run
  match run.found with
  | .error e =>
    .ok { code := 2, errors := notice ++ (searchFatal e).text, files := files }
  | .ok records =>
    .ok {
      code := exitCode report.hasErrors
      output := (presentation w c).searchText term records
      errors := notice
      files := files }

/-- Carries out a command. -/
def carryOut (b : Backend G) (w : World) (c : CommandLine) : Except Fatal Exit := do
  (c.check w.files).mapError (fun e => { reasons := [e.message] : Fatal })
  let config ← settings w c.options
  let f ← filter config
  match c.command with
  | .validate path => validate b w config f path
  | .importFrom path => importFrom b w config f path
  | .search path term => search b w config f path term
  | .convert path => convert w path

/-- A run of the program with a command line. -/
def run (b : Backend G) (w : World) (c : CommandLine) : Exit :=
  match carryOut b w c with
  | .ok exit => exit
  | .error f => { code := 2, errors := f.text, files := w.files }

/-! ## Arguments that are no command line -/

/-- The version of the program. -/
def version : String :=
  "metadata-verify 0.1.0\n"

/-- How the program is used. -/
def usage : String :=
  "Usage: metadata-verify [OPTIONS] <COMMAND>\n\n" ++
    "Commands:\n" ++
    "  validate <PATH>       Validate every document found\n" ++
    "  import <PATH>         Validate and import every document found\n" ++
    "  search <PATH> <TERM>  Import the documents found, then search titles and authors\n" ++
    "  convert <JSON_FILE>   Print the namespaced document of a JSON record\n\n" ++
    "Options:\n" ++
    "      --config <CONFIG>          Configuration file (TOML or JSON)\n" ++
    "      --xsd <XSD>                XML Schema to use instead of the built-in one\n" ++
    "      --rng <RNG>                RelaxNG grammar to use instead of the built-in one\n" ++
    "      --grammar <GRAMMAR>        schema, pattern or both\n" ++
    "  -e, --extensions <EXTENSIONS>  File extensions to process, separated by commas\n" ++
    "      --include <PATTERN>        Include file patterns\n" ++
    "      --exclude <PATTERN>        Exclude file patterns\n" ++
    "  -t, --threads <THREADS>        Number of concurrent validation tasks\n" ++
    "  -v, --verbose                  Enable verbose output\n" ++
    "  -q, --quiet                    Rejections and errors only\n" ++
    "      --format <FORMAT>          human, json or summary\n" ++
    "      --fail-fast                Stop after the first rejected document\n" ++
    "      --snapshot <SNAPSHOT>      Write each search snapshot to this file\n" ++
    "  -h, --help                     Print help\n" ++
    "  -V, --version                  Print version\n"

/-- What is wrong with arguments. -/
def faultText : ArgumentFault → String
  | .help => ""
  | .version => ""
  | .noArguments => ""
  | .noCommand => "error: a command is required\n\n"
  | .missingArgument => "error: an argument of the command is missing\n\n"
  | .unknownArgument => "error: unexpected argument\n\n"
  | .unknownCommand => "error: unknown command\n\n"
  | .invalidValue => "error: invalid value for an option or argument\n\n"
  | .unreadableValue => "error: a value cannot be read\n\n"
  | .conflict => "error: options exclude each other or are repeated\n\n"
  | .tooManyValues => "error: an option takes no value\n\n"

/-- A run with arguments that are no command line. -/
def refuse (w : World) (fault : ArgumentFault) : Exit :=
  match fault with
  | .help => { code := 0, output := usage, files := w.files }
  | .version => { code := 0, output := version, files := w.files }
  | fault => { code := 2, errors := faultText fault ++ usage, files := w.files }

/-- A run of the program with arguments that are text. -/
def runArguments (b : Backend G) (w : World) (arguments : List String) : Exit :=
  match CommandLine.ofArguments arguments with
  | .ok c => run b w c
  | .error fault => refuse w fault

end Program

end VideoCatalog
