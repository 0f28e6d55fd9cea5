import VideoCatalog.Config.Environment
import VideoCatalog.Config.Json
import VideoCatalog.Config.Toml

/-!
Getting the settings of a run: from the file that the command line names, else from the first file
found in the usual places, then from the environment and from the command line.
-/

namespace VideoCatalog

namespace Config

/-- The settings that a text holds, given the extension of its file. Without an extension it may be
TOML or else JSON. -/
def ofText (extension : Option String) (text : String) : Except ConfigError Config :=
  let toml : Except ConfigError Config :=
    match ofTomlText? text with
    | some c => .ok c
    | none => .error .toml
  let json : Except ConfigError Config := (ofJsonText text).mapError (fun _ => .json)
  match extension with
  | some "toml" => toml
  | some "json" => json
  | some other => .error (.unsupportedFormat other)
  | none =>
    match toml with
    | .ok c => .ok c
    | .error _ => json

/-- The settings in a file. -/
def ofFile (files : Files.Volume) (path : RawText) : Except ConfigError Config := do
  let text ← (files.readText path).mapError .io
  ofText (Files.Path.extension? path) text

/-- The name of the program, under which its settings are kept. -/
def programName : String :=
  "metadata-verify"

/-- The names that a file of settings can have, in the order in which they are looked for. -/
def fileNames : List String :=
  [programName ++ ".toml", programName ++ ".json", "." ++ programName ++ ".toml",
    "." ++ programName ++ ".json"]

/-- The usual places of a file of settings: the directory of the run, then that of the user. -/
def usualPlaces (userDirectory : Option RawText) : List RawText :=
  let names := fileNames.map RawText.ofString
  names ++
    match userDirectory with
    | some d => names.map (Files.Path.join (Files.Path.join d programName))
    | none => []

/-- Where the settings may be: in the file that is named, else in one of the usual places. -/
def places (userDirectory : Option RawText) (o : Options) : List RawText :=
  match o.config with
  | some path => [RawText.ofString path]
  | none => usualPlaces userDirectory

/-- The file of settings to use, if there is one. -/
def file? (files : Files.Volume) (userDirectory : Option RawText) (o : Options) : Option RawText :=
  match o.config with
  | some path => some (RawText.ofString path)
  | none => (usualPlaces userDirectory).find? files.contains

/-- The settings of a file above the defaults, or the defaults. -/
def fromFiles (files : Files.Volume) (userDirectory : Option RawText) (o : Options) :
    Except ConfigError Config :=
  match file? files userDirectory o with
  | some path => (ofFile files path).map (fun c => c.above {})
  | none => .ok {}

/-- The settings of a run, which make sense. -/
def load (files : Files.Volume) (userDirectory : Option RawText) (env : Environment)
    (o : Options) : Except ConfigError Config := do
  let c ← fromFiles files userDirectory o
  let c ← c.withEnvironment env
  let c := c.withOptions o
  c.validate
  .ok c

end Config

end VideoCatalog
