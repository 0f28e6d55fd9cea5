import VideoCatalog.Search

/-!
What can end the work of the catalogue: the failures of its parts under one type. `message` is the
wording shown to the user, `cause?` the wording of what lies behind it where the message does not
say all of it.
-/

namespace VideoCatalog

/-- Why the catalogue cannot go on. -/
inductive Failure where
  /-- A file cannot be read or written. -/
  | io (error : Files.IoError)
  /-- A report cannot be written as JSON. -/
  | json (details : String)
  /-- A grammar cannot be read or compiled. -/
  | grammar (source details : String)
  /-- A setting is unusable. -/
  | configuration (details : String)
  /-- An XML engine fails. -/
  | engine (error : EngineError)
  /-- A directory cannot be walked through. -/
  | traversal (path reason : String)
  /-- Work that goes on side by side fails. -/
  | concurrency (details : String)
  /-- The collection refuses. -/
  | store (error : StoreError)
  /-- A search fails. -/
  | search (error : SearchError)
  /-- A document belongs to another catalogue. -/
  | conversion (error : Video.Foreign)
  deriving DecidableEq

namespace Failure

/-- The wording of the failure. -/
def message : Failure → String
  | .io error => "IO error: " ++ error.message
  | .json details => "JSON error: " ++ details
  | .grammar source details => "Schema load error: " ++ source ++ " - " ++ details
  | .configuration details => "Configuration error: " ++ details
  | .engine error => "LibXML2 internal error: " ++ error.message
  | .traversal path reason => "File system traversal error: " ++ path ++ " - " ++ reason
  | .concurrency details => "Concurrent operation error: " ++ details
  | .store error => error.message
  | .search error => error.message
  | .conversion error => error.message

/-- The wording of what lies behind the failure, if it names something. -/
def cause? : Failure → Option String
  | .io error => some error.message
  | .json details => some details
  | .search error => error.cause?
  | _ => none

/-- The failure to write a path that is no text as JSON. -/
def pathNotText : Failure :=
  .json "path contains invalid UTF-8 characters"

/-- The failure and what lies behind it, outermost first. -/
def chain (f : Failure) : List String :=
  f.message :: f.cause?.toList

end Failure

end VideoCatalog
