import VideoCatalog.Files.Path

/-!
A file system as a value: a tree of files, directories and symbolic links, and the directory in
which relative paths begin. Names are bytes, so a file may have a name that is no text. Operations
follow links on the way, at most forty of them, and fail the way the operating system does.
-/

namespace VideoCatalog.Files

/-- What a directory can hold. -/
inductive Entry where
  | file (content : ByteArray)
  | directory (entries : List (RawText × Entry))
  | link (target : RawText)

/-- Why an operation on files fails. -/
inductive IoError where
  | notFound
  | permissionDenied
  | notDirectory
  | isDirectory
  | nameTooLong
  | tooManyLinks
  /-- Another error of the operating system, by its number. -/
  | system (number : Int)
  /-- The content of a file is no text. -/
  | notText
  /-- A path holds a NUL. -/
  | interiorNul
  /-- A failure with a text of its own. -/
  | custom (details : String)
  deriving DecidableEq

/-- The names of the errors of the operating system. -/
def systemErrorName (number : Int) : String :=
  match number with
  | 1 => "Operation not permitted"
  | 2 => "No such file or directory"
  | 3 => "No such process"
  | 4 => "Interrupted system call"
  | 5 => "Input/output error"
  | 6 => "No such device or address"
  | 7 => "Argument list too long"
  | 8 => "Exec format error"
  | 9 => "Bad file descriptor"
  | 10 => "No child processes"
  | 11 => "Resource temporarily unavailable"
  | 12 => "Cannot allocate memory"
  | 13 => "Permission denied"
  | 14 => "Bad address"
  | 15 => "Block device required"
  | 16 => "Device or resource busy"
  | 17 => "File exists"
  | 18 => "Invalid cross-device link"
  | 19 => "No such device"
  | 20 => "Not a directory"
  | 21 => "Is a directory"
  | 22 => "Invalid argument"
  | 23 => "Too many open files in system"
  | 24 => "Too many open files"
  | 25 => "Inappropriate ioctl for device"
  | 26 => "Text file busy"
  | 27 => "File too large"
  | 28 => "No space left on device"
  | 29 => "Illegal seek"
  | 30 => "Read-only file system"
  | 31 => "Too many links"
  | 32 => "Broken pipe"
  | 33 => "Numerical argument out of domain"
  | 34 => "Numerical result out of range"
  | 35 => "Resource deadlock avoided"
  | 36 => "File name too long"
  | 37 => "No locks available"
  | 38 => "Function not implemented"
  | 39 => "Directory not empty"
  | 40 => "Too many levels of symbolic links"
  | 0 => "Success"
  | n => "Unknown error " ++ toString n

/-- The wording of an error of the operating system. -/
def systemErrorText (number : Int) : String :=
  systemErrorName number ++ " (os error " ++ toString number ++ ")"

namespace IoError

/-- The wording of the error. -/
def message : IoError → String
  | .notFound => systemErrorText 2
  | .permissionDenied => systemErrorText 13
  | .notDirectory => systemErrorText 20
  | .isDirectory => systemErrorText 21
  | .nameTooLong => systemErrorText 36
  | .tooManyLinks => systemErrorText 40
  | .system number => systemErrorText number
  | .notText => "stream did not contain valid UTF-8"
  | .interiorNul => "file name contained an unexpected NUL byte"
  | .custom details => details

end IoError

/-- The files of a machine; `start` is the directory in which relative paths begin, from the
root. -/
structure Volume where
  root : List (RawText × Entry) := []
  start : List RawText := []

/-- The entry of that name. -/
def entryIn? (name : RawText) (entries : List (RawText × Entry)) : Option Entry :=
  (entries.find? (fun e => e.1 == name)).map Prod.snd

/-- Where following a path has led: the names from the root, without links, and what is there. -/
structure Place where
  names : List RawText
  entry : Option Entry

namespace Volume

/-- What is at a row of names that are no links. -/
def entryAt? : List (RawText × Entry) → List RawText → Option Entry
  | entries, [] => some (.directory entries)
  | entries, name :: names =>
    match entryIn? name entries with
    | some (.directory inner) => entryAt? inner names
    | some other => if names.isEmpty then some other else none
    | none => none

/-- The most links that are followed on the way along one path. -/
def linkLimit : Nat := 40

/-- Follows the pieces of a path. `here` is where it has come to; `links` is how many more links may
be followed; `last` says whether a link at the very end is followed. `fuel` bounds the number of
steps. The entry of the result is missing if only the last piece names nothing. -/
def follow (s : Volume) (last : Bool) :
    Nat → Nat → List RawText → List RawText → Except IoError Place
  | 0, _, _, _ => .error .tooManyLinks
  | _ + 1, _, here, [] => .ok { names := here, entry := entryAt? s.root here }
  | fuel + 1, links, here, piece :: rest =>
    match entryAt? s.root here with
    | some (.directory entries) =>
      if piece = "" || piece = "." then follow s last fuel links here rest
      else if piece = ".." then follow s last fuel links here.dropLast rest
      else if piece.bytes.length > 255 then .error .nameTooLong
      else
        match entryIn? piece entries with
        | none =>
          if rest.all (fun p => p = "") then .ok { names := here ++ [piece], entry := none }
          else .error .notFound
        | some (.link target) =>
          if rest.isEmpty && !last then
            .ok { names := here ++ [piece], entry := some (.link target) }
          else if links = 0 then .error .tooManyLinks
          else if Path.isAbsolute target then
            follow s last fuel (links - 1) [] (Path.pieces target ++ rest)
          else follow s last fuel (links - 1) here (Path.pieces target ++ rest)
        | some _ => follow s last fuel links (here ++ [piece]) rest
    | some _ => .error .notDirectory
    | none => .error .notFound

/-- More steps than following a path within the limit on links can take. -/
def stepBound (path : RawText) : Nat :=
  (path.bytes.length + 5000) * (linkLimit + 2)

/-- Where a path leads. -/
def locate (s : Volume) (last : Bool) (path : RawText) : Except IoError Place :=
  if path.bytes.contains 0 then .error .interiorNul
  else if path = "" then .error .notFound
  else
    let begin := if Path.isAbsolute path then [] else s.start
    follow s last (stepBound path) linkLimit begin (Path.pieces path)

/-- What a path leads to, links followed. -/
def entry (s : Volume) (path : RawText) : Except IoError Entry := do
  let place ← s.locate true path
  match place.entry with
  | some e => .ok e
  | none => .error .notFound

/-- Whether a path leads to anything. -/
def contains (s : Volume) (path : RawText) : Bool :=
  match s.entry path with
  | .ok _ => true
  | .error _ => false

/-- The bytes of a file. -/
def read (s : Volume) (path : RawText) : Except IoError ByteArray := do
  match ← s.entry path with
  | .file content => .ok content
  | _ => .error .isDirectory

/-- The text of a file. -/
def readText (s : Volume) (path : RawText) : Except IoError String := do
  let content ← s.read path
  match String.fromUTF8? content with
  | some text => .ok text
  | none => .error .notText

/-! ## Writing -/

/-- The entries with one put in, in place of any other of its name. -/
def putEntry (name : RawText) (e : Entry) : List (RawText × Entry) → List (RawText × Entry)
  | [] => [(name, e)]
  | (n, old) :: rest => if n = name then (name, e) :: rest else (n, old) :: putEntry name e rest

/-- Puts an entry at a row of names; directories that are not there yet are made. -/
def putAt (e : Entry) : List (RawText × Entry) → List RawText → List (RawText × Entry)
  | entries, [] => entries
  | entries, [name] => putEntry name e entries
  | entries, name :: names =>
    let inner :=
      match entryIn? name entries with
      | some (.directory inner) => inner
      | _ => []
    putEntry name (.directory (putAt e inner names)) entries

/-- The files with an entry put at a row of names from the root. -/
def put (s : Volume) (names : List RawText) (e : Entry) : Volume :=
  { s with root := putAt e s.root names }

/-- Makes a directory and those on the way to it. `fuel` bounds the number of them. -/
def makeDirectories : Nat → Volume → RawText → Except IoError Volume
  | 0, s, _ => .ok s
  | fuel + 1, s, path =>
    match s.locate true path with
    | .ok { entry := some (.directory _), .. } => .ok s
    | .ok { entry := some _, .. } => .error (.system 17)
    | .ok { names := names, entry := none } => .ok (s.put names (.directory []))
    | .error .notFound =>
      match Path.parent? path with
      | some parent => do
        let s ← makeDirectories fuel s parent
        match s.locate true path with
        | .ok { names := names, entry := none } => .ok (s.put names (.directory []))
        | .ok _ => .ok s
        | .error e => .error e
      | none => .error .notFound
    | .error e => .error e

/-- Writes a file, in place of any other at that path. -/
def write (s : Volume) (path : RawText) (content : ByteArray) : Except IoError Volume := do
  let place ← s.locate true path
  match place.entry with
  | some (.directory _) => .error .isDirectory
  | some _ => .ok (s.put place.names (.file content))
  | none =>
    if path.bytes.getLast? = some RawText.slash then .error .isDirectory
    else .ok (s.put place.names (.file content))

/-- Writes a file after making the directory it is to be in. -/
def writeWithParents (s : Volume) (path : RawText) (content : ByteArray) :
    Except IoError Volume := do
  match Path.parent? path with
  | none => s.write path content
  | some parent =>
    if parent = "" then s.write path content
    else
      let s ← makeDirectories (path.bytes.length + 1) s parent
      s.write path content

end Volume

end VideoCatalog.Files
