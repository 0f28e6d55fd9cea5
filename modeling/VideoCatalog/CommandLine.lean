import VideoCatalog.Files.Volume
import VideoCatalog.GrammarSet
import VideoCatalog.Output.Format

/-!
What a command line asks for: one command and the options given with it. An option that is not given
leaves the setting to the other sources. The path of a command is taken as bytes; all else on a
command line is text here, the paths among the options too.
-/

namespace VideoCatalog

/-- What is to be done. -/
inductive Command where
  /-- Check the documents at a path. -/
  | validate (path : RawText)
  /-- Import the documents at a path. -/
  | importFrom (path : RawText)
  /-- Import the documents at a path, then search them for a term. -/
  | search (path : RawText) (term : String)
  /-- Show the internal document of a record in JSON. -/
  | convert (path : RawText)
  deriving DecidableEq

namespace Command

/-- The path that the command is about. -/
def path : Command → RawText
  | .validate path => path
  | .importFrom path => path
  | .search path _ => path
  | .convert path => path

end Command

/-- The options given. -/
structure Options where
  config : Option String := none
  schema : Option String := none
  pattern : Option String := none
  grammar : Option GrammarChoice := none
  extensions : Option String := none
  includePatterns : List String := []
  excludePatterns : List String := []
  threads : Option Nat := none
  verbose : Bool := false
  quiet : Bool := false
  format : Option OutputFormat := none
  failFast : Bool := false
  snapshot : Option String := none
  deriving DecidableEq

namespace Options

/-- The extensions given, as a list. -/
def extensionList? (o : Options) : Option (List String) :=
  o.extensions.map Text.commaList

/-- How much is to be shown. -/
def verbosity (o : Options) : Verbosity :=
  .ofFlags o.verbose o.quiet

end Options

/-- A command with its options. -/
structure CommandLine where
  command : Command
  options : Options := {}
  deriving DecidableEq

namespace CommandLine

/-- Why a well-formed command line cannot be carried out. -/
inductive Unusable where
  | noSuchPath (path : RawText)
  | noThreads
  deriving DecidableEq

namespace Unusable

/-- The wording of the reason. -/
def message : Unusable → String
  | .noSuchPath path => "Path does not exist: " ++ path.shown
  | .noThreads => "Number of threads must be greater than 0"

end Unusable

/-- Whether the path is there and the options make sense. -/
def check (c : CommandLine) (files : Files.Volume) : Except Unusable Unit :=
  if !files.contains c.command.path then .error (.noSuchPath c.command.path)
  else if c.options.threads = some 0 then .error .noThreads
  else .ok ()

end CommandLine

end VideoCatalog
