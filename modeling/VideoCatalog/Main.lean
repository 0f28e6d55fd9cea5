import VideoCatalog.Engine.Structural
import VideoCatalog.Program

/-!
The command line. It gathers what a run depends on, lets `Program` say what comes of it, and shows
that. Nothing is decided here.

A run only sees the files it may look at: the places of settings, the grammars, and the documents at
the path of the command. They are put into a volume at the paths by which they are called; symbolic
links below a directory stay links. The disk is read by names that are text.
-/

namespace VideoCatalog

open Files (Entry Volume)

namespace Disk

/-- The names on the way to a path from the root, given those on the way to the directory of the
run. -/
def names (start : List RawText) (path : RawText) : List RawText :=
  (Files.Path.pieces path).foldl
    (fun (here : List RawText) (piece : RawText) =>
      if piece = "" || piece = "." then here
      else if piece = ".." then here.dropLast
      else here ++ [piece])
    (if Files.Path.isAbsolute path then [] else start)

/-- A path as the disk is asked for it. -/
def asked (path : RawText) : IO String :=
  match path.text? with
  | some text => pure text
  | none => throw (IO.userError "the path is no text")

/-- What is at a path; of the files below a directory, those that are not wanted are left empty. -/
partial def entry? (wanted : RawText → Bool) (path : RawText) : IO (Option Entry) := do
  try
    let place ← IO.FS.realPath (← asked path)
    match (← place.metadata).type with
    | .dir =>
      let found ← (← place.readDir).toList.mapM (fun inner => do
        let below := Files.Path.join path inner.fileName
        if (← inner.path.symlinkMetadata).type matches .symlink then
          let target := (← IO.FS.realPath inner.path).toString
          pure (some (RawText.ofString inner.fileName, Entry.link target))
        else
          let entry ← entry? wanted below
          pure (entry.map (fun e => (RawText.ofString inner.fileName, e))))
      pure (some (.directory (found.filterMap id)))
    | _ =>
      let content ← if wanted path then IO.FS.readBinFile (← asked path) else pure .empty
      pure (some (.file content))
  catch _ => pure none

/-- The files with what is at a path. -/
def load (wanted : RawText → Bool) (files : Volume) (path : RawText) : IO Volume := do
  match ← entry? wanted path with
  | some entry => pure (files.put (names files.start path) entry)
  | none => pure files

/-- The files with what is at several paths. -/
def loadAll (files : Volume) (paths : List RawText) : IO Volume :=
  paths.foldlM (load (fun _ => true)) files

/-- Leaves a file as a run has left it. -/
def save (before after : Volume) (path : String) : IO Unit := do
  match after.read path, before.read path with
  | .ok content, .error _ =>
    match Files.Path.parent? path with
    | some parent => if parent ≠ "" then IO.FS.createDirAll (← asked parent)
    | none => pure ()
    IO.FS.writeBinFile path content
  | .ok content, .ok old => if content != old then IO.FS.writeBinFile path content
  | .error _, _ => pure ()

end Disk

namespace Surroundings

/-- The values of the variables that a run may ask for. -/
def environment : IO Environment := do
  let names := Environment.names.map (Environment.nameStart ++ ·)
  let values ← names.mapM (fun name => do
    pure (name, ← IO.getEnv name))
  pure (fun name => (values.lookup name).join)

/-- The directory in which the user keeps settings. -/
def userDirectory : IO (Option RawText) := do
  let usual := (← IO.getEnv "HOME").map (fun home => Files.Path.join home ".config")
  match ← IO.getEnv "XDG_CONFIG_HOME" with
  | some d => pure (if Files.Path.isAbsolute d then some (RawText.ofString d) else usual)
  | none => pure usual

/-- The number of processors, as the system lists them. -/
def processors : IO Nat := do
  try
    let lines ← IO.FS.lines "/proc/cpuinfo"
    pure (Nat.max 1 (lines.filter (fun line => beginsWith line "processor")).size)
  catch _ => pure 1

/-- All that a run depends on, but for the files. -/
def world : IO World := do
  let here ← IO.currentDir
  pure {
    files := { start := (Files.Path.pieces here.toString).filter (· ≠ "") }
    environment := ← environment
    userDirectory := ← userDirectory
    processors := ← processors
    terminal := ← (← IO.getStdout).isTty }

end Surroundings

/-- The world with the files that a command line leads to, and where the snapshot is to be. -/
def prepare (w : World) (c : CommandLine) : IO (World × Option String) := do
  let files ← Disk.loadAll w.files (Config.places w.userDirectory c.options)
  let w := { w with files := files }
  match Program.settings w c.options with
  | .error _ => pure ({ w with files := ← Disk.loadAll files [c.command.path] }, none)
  | .ok config =>
    let wanted : RawText → Bool :=
      match Program.filter config with
      | .ok f => f.accepts
      | .error _ => fun _ => false
    let named := config.schemas.schema.toList ++ config.schemas.pattern.toList ++
      config.search.snapshotPath.toList
    let files ← Disk.loadAll files (named.map RawText.ofString)
    let files ←
      match c.command with
      | .convert path => Disk.loadAll files [path]
      | command => Disk.load wanted files command.path
    pure ({ w with files := files }, config.search.snapshotPath)

/-- Carries out a command line. -/
def perform (w : World) (c : CommandLine) : IO Exit := do
  let (w, snapshot) ← prepare w c
  let exit := Program.run Structural.backend w c
  if let some path := snapshot then
    try Disk.save w.files exit.files path
    catch _ => pure ()
  pure exit

end VideoCatalog

open VideoCatalog in
/-- Runs the program and shows what comes of it. -/
def main (arguments : List String) : IO UInt32 := do
  let w ← Surroundings.world
  let exit ←
    match CommandLine.ofArguments arguments with
    | .ok c => perform w c
    | .error fault => pure (Program.refuse w fault)
  IO.print exit.output
  IO.eprint exit.errors
  pure exit.code.toUInt32
