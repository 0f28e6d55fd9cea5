import VideoCatalog.Files.Volume
import VideoCatalog.Glob
import VideoCatalog.Text.LowerCase

/-!
Finding the documents to work on.

A file counts if its extension is listed, no exclusion matches its path and, where inclusions are
given, one of them does. Below a directory all files are visited that can be reached through
directories within the allowed depth; symbolic links are passed over unless they are to be followed,
and what cannot be read is left out. The files found are in the order of paths.
-/

namespace VideoCatalog

open Files (Entry IoError Volume)

/-- Which files to look for. -/
structure FileRules where
  extensions : List String := ["xml"]
  includePatterns : List String := []
  excludePatterns : List String := []
  maxDepth : Option Nat := none
  deriving DecidableEq

/-- A pattern that cannot be read. -/
structure BadPattern where
  pattern : String
  fault : Glob.Fault
  deriving DecidableEq

namespace BadPattern

/-- The wording of the fault. -/
def message (b : BadPattern) : String :=
  "Invalid glob pattern '" ++ b.pattern ++ "': error parsing glob '" ++ b.pattern ++ "': " ++
    b.fault.message

end BadPattern

/-- The rules in the form in which paths are checked against them. -/
structure FileFilter where
  extensions : List String
  inclusions : List (List Glob.Token)
  exclusions : List (List Glob.Token)
  maxDepth : Option Nat

namespace FileFilter

/-- The patterns in the form in which paths are matched against them. -/
def readPatterns (patterns : List String) : Except BadPattern (List (List Glob.Token)) :=
  patterns.mapM (fun p => (Glob.tokens p).mapError (fun fault => { pattern := p, fault := fault }))

/-- The filter for some rules; inclusions are read before exclusions. -/
def ofRules (rules : FileRules) : Except BadPattern FileFilter := do
  let inclusions ← readPatterns rules.includePatterns
  let exclusions ← readPatterns rules.excludePatterns
  .ok {
    extensions := rules.extensions.map Text.toLower
    inclusions := inclusions
    exclusions := exclusions
    maxDepth := rules.maxDepth }

/-- Whether one of the patterns matches a path. -/
def anyAccepts (patterns : List (List Glob.Token)) (path : RawText) : Bool :=
  patterns.any (fun p => Glob.accepts p path)

/-- Whether the extension of a path is listed, in whatever case. One that is no text is not. -/
def hasExtension (f : FileFilter) (path : RawText) : Bool :=
  match Files.Path.extension? path with
  | some e => f.extensions.contains (Text.toLower e)
  | none => false

/-- Whether a file counts. -/
def accepts (f : FileFilter) (path : RawText) : Bool :=
  f.hasExtension path && !anyAccepts f.exclusions path &&
    (f.inclusions.isEmpty || anyAccepts f.inclusions path)

/-- Whether a depth is within the limit. -/
def allows (f : FileFilter) (depth : Nat) : Bool :=
  f.maxDepth.all (fun limit => depth ≤ limit)

/-- Whether what a directory at this depth holds is still within the limit. -/
def entersAt (f : FileFilter) (depth : Nat) : Bool :=
  f.maxDepth.all (fun limit => depth < limit)

end FileFilter

namespace Discovery

mutual
/-- The files that count at an entry and below it. `linked` gives those behind a symbolic link. -/
def visit (f : FileFilter) (linked : Nat → RawText → List RawText) (depth : Nat) (path : RawText) :
    Entry → List RawText
  | .file _ => if f.allows depth && f.accepts path then [path] else []
  | .directory entries =>
    if f.entersAt depth then visitAll f linked (depth + 1) path entries else []
  | .link _ => linked depth path

/-- The files that count among the entries of a directory. -/
def visitAll (f : FileFilter) (linked : Nat → RawText → List RawText) (depth : Nat)
    (directory : RawText) : List (RawText × Entry) → List RawText
  | [] => []
  | (name, entry) :: entries =>
    visit f linked depth (Files.Path.join directory name) entry ++
      visitAll f linked depth directory entries
end

/-- The files behind a symbolic link: none if links are not followed. `links` bounds the number of
links on the way; a path with more of them leads nowhere. -/
def behindLink (f : FileFilter) (s : Volume) (follow : Bool) : Nat → Nat → RawText → List RawText
  | 0, _, _ => []
  | links + 1, depth, path =>
    if !follow || !f.allows depth then []
    else
      match s.entry path with
      | .ok entry => visit f (behindLink f s follow links) depth path entry
      | .error _ => []

/-- The files that count at a path or below it, in the order of paths. -/
def files (f : FileFilter) (s : Volume) (follow : Bool) (path : RawText) :
    Except IoError (List RawText) := do
  match ← s.entry path with
  | .directory entries =>
    let found := visitAll f (behindLink f s follow (Volume.linkLimit + 1)) 0 path entries
    .ok (found.mergeSort Files.Path.le)
  | _ => .ok (if f.accepts path then [path] else [])

end Discovery

end VideoCatalog
