import VideoCatalog.Engine.Query
import VideoCatalog.Files.Volume
import VideoCatalog.Record.Xml
import VideoCatalog.Store
import VideoCatalog.Text.CaseFolding

/-!
Searching titles and authors, whatever the case of the letters.

The collection is written as one snapshot document and a fixed expression is evaluated over it. The
term never becomes part of the expression: it is folded and bound to a variable, next to the two
parallel texts with which the expression folds titles and authors the same way. An element that the
expression selects stands for the record at its position in the collection, so a record is returned
as it is stored even where the snapshot could not carry its text.
-/

namespace VideoCatalog

open Xml (Cursor)

/-- What goes wrong inside a search. -/
inductive SearchError where
  /-- The snapshot cannot be parsed or queried. -/
  | query (error : EngineError)
  /-- An element that was selected does not lead back to a record. -/
  | snapshot (details : String)
  /-- The collection cannot be read. -/
  | store (error : StoreError)
  deriving DecidableEq

namespace SearchError

/-- The wording of the error. -/
def message : SearchError → String
  | .query error => "Snapshot query failed: " ++ error.message
  | .snapshot details => "Snapshot entry could not be read back: " ++ details
  | .store error => error.message

/-- The wording of what lies behind the error, if it names something. -/
def cause? : SearchError → Option String
  | .query error => some error.message
  | _ => none

end SearchError

namespace Search

variable {G : Type}

/-- The qualifier that the expression uses for the namespace of the catalogue. -/
def qualifier : String :=
  "t"

/-- The expression that selects the entries of a snapshot. -/
def expression : String :=
  "/t:videos/t:video[contains(translate(t:title, $upper, $lower), $term) " ++
    "or contains(translate(t:author, $upper, $lower), $term)]"

/-- A search: its result, the calls made for it, and the snapshot if one was needed. -/
structure Run where
  found : Except SearchError (List Record)
  calls : List QueryCall := []
  snapshot : Option String := none

/-- The entries that match a folded term. -/
def select (b : Backend G) (term : String) : QueryStep (List Cursor) := do
  Query.bindNamespace b qualifier videoNamespace
  Query.bindVariable b "upper" Text.caseFolding.upper
  Query.bindVariable b "lower" Text.caseFolding.lower
  Query.bindVariable b "term" term
  Query.select b expression

/-- The record at the position of an entry, unless the element is no entry. -/
def stored? (records : List Record) (entry : Cursor) : Option Record :=
  match entry.path with
  | [i] => records[i]?
  | _ => none

/-- The record behind an entry, once the entry has been found to read as a record of the catalogue;
or what is wrong with it. -/
def readBack (records : List Record) (entry : Cursor) : Except String Record := do
  let line := "line " ++ toString entry.element.line ++ ": "
  match stored? records entry with
  | none => .error (line ++ "match is not an entry of the snapshot")
  | some record =>
    match Video.ofElement entry.element with
    | .error e => .error (line ++ e.message)
    | .ok video =>
      match video.toRecord with
      | .error e => .error (line ++ e.message)
      | .ok _ => .ok record

/-- The faults among some results. -/
def faults (results : List (Except String Record)) : List String :=
  results.filterMap (fun r =>
    match r with
    | .ok _ => none
    | .error details => some details)

/-- The records among some results. -/
def records (results : List (Except String Record)) : List Record :=
  results.filterMap (fun r =>
    match r with
    | .ok record => some record
    | .error _ => none)

/-- The records behind the entries, or all that is wrong with them. -/
def readBackAll (collection : List Record) (entries : List Cursor) :
    Except SearchError (List Record) :=
  let results := entries.map (readBack collection)
  if (faults results).isEmpty then .ok (records results)
  else .error (.snapshot (Text.joinWith "; " (faults results)))

/-- The records of a snapshot that match a term, and the calls made to find them. -/
def inSnapshot (b : Backend G) (collection : List Record) (term snapshot : String) :
    Except SearchError (List Record) × List QueryCall :=
  match b.document snapshot with
  | .error e => (.error (.query e), [])
  | .ok document =>
    match Query.start b document with
    | .error e => (.error (.query e), [])
    | .ok query =>
      let (selected, query) := ((select b (Text.foldCase term)).run).run query
      match selected with
      | .error e => (.error (.query e), query.calls)
      | .ok entries =>
        if document.root.isNone then
          (.error (.snapshot "snapshot has no root element"), query.calls)
        else (readBackAll collection entries, query.calls)

/-- Searches a collection for a term. Nothing is in an empty collection, and no text holds a NUL. -/
def run (b : Backend G) (collection : List Record) (term : String) : Run :=
  if collection.isEmpty || term.toList.contains (Char.ofNat 0) then { found := .ok [] }
  else
    let snapshot := Video.snapshot collection
    let (found, calls) := inSnapshot b collection term snapshot
    { found := found, calls := calls, snapshot := some snapshot }

/-- The files after a search that was asked to leave its snapshot at a path; a snapshot that cannot
be written is left out. -/
def keepSnapshot (files : Files.Volume) (path : Option String) (r : Run) : Files.Volume :=
  match path, r.snapshot with
  | some path, some snapshot =>
    match files.writeWithParents path snapshot.toUTF8 with
    | .ok files => files
    | .error _ => files
  | _, _ => files

end Search

end VideoCatalog
