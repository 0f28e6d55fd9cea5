import VideoCatalog.Record

/-!
The internal form of a record: the same fields under a namespace. Only documents in the namespace
of the catalogue count as records.
-/

namespace VideoCatalog

/-- The namespace of internal documents and of search snapshots. -/
def videoNamespace : String :=
  "urn:tiktok"

/-- A record under a namespace. -/
structure Video where
  uri : String
  fields : Record
  deriving DecidableEq

namespace Video

/-- Why an internal document is not a record of the catalogue. -/
inductive Foreign where
  /-- It is in another namespace than the one expected. -/
  | namespaceMismatch (expected found : String)
  deriving DecidableEq

namespace Foreign

/-- The wording of the mismatch. -/
def message : Foreign → String
  | .namespaceMismatch expected found =>
    "Document namespace mismatch: expected '" ++ expected ++ "', found '" ++ found ++ "'"

end Foreign

/-- A record qualified by the namespace of the catalogue. -/
def ofRecord (r : Record) : Video :=
  { uri := videoNamespace, fields := r }

/-- The record of a document in the namespace of the catalogue. -/
def toRecord (v : Video) : Except Foreign Record :=
  if v.uri = videoNamespace then .ok v.fields
  else .error (.namespaceMismatch videoNamespace v.uri)

end Video

end VideoCatalog
