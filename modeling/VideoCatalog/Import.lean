import VideoCatalog.Files.Volume
import VideoCatalog.GrammarSet
import VideoCatalog.Record.Json
import VideoCatalog.Record.Xml
import VideoCatalog.Store

/-!
Importing submissions. A text is parsed, checked against the chosen grammars, read as a record and
added to the collection, in this order; the first step that fails is the reason of the refusal, and
a refused text leaves the collection as it was.

Files are imported one after the other, so of two records with one id the first is kept. A file that
cannot be read fails; with `failFast` the files behind the first one that is refused or fails are
not attempted.
-/

namespace VideoCatalog

/-- Why a submission is refused. -/
inductive ImportError where
  /-- The document violates a grammar or is not well-formed. -/
  | invalid (errors : List String)
  /-- The document is valid but is not a record. -/
  | deserialization (details : String)
  /-- The id is taken. -/
  | conflict (id : Int64)
  /-- The collection refuses for another reason. -/
  | store (error : StoreError)
  deriving DecidableEq

namespace ImportError

/-- The wording of the refusal in one line. -/
def message : ImportError → String
  | .invalid errors => "Document rejected with " ++ toString errors.length ++ " violation(s)"
  | .deserialization details => "deserialization error: " ++ details
  | .conflict id => (StoreError.conflict id).message
  | .store error => error.message

/-- All that there is to say about the refusal. -/
def messages : ImportError → List String
  | .invalid errors => errors
  | e => [e.message]

/-- The refusal of the collection as the refusal of a submission. -/
def ofStore : StoreError → ImportError
  | .conflict id => .conflict id
  | e => .store e

end ImportError

/-- The acknowledgement of an imported record. -/
structure Receipt where
  id : Int64
  grammar : GrammarChoice
  deriving DecidableEq

namespace GrammarSet

variable {G : Type}

/-- The record that a text submits, if the grammars accept it. -/
def accept (b : Backend G) (g : GrammarSet G) (choice : GrammarChoice) (text : String) :
    Except ImportError Record :=
  match b.document text with
  | .error e => .error (.invalid (ValidationResult.malformed e).errors)
  | .ok d =>
    let violations := g.check b choice d
    if !violations.isEmpty then .error (.invalid violations)
    else
      match d.root with
      | none => .error (.deserialization "document has no root element")
      | some root => (Record.ofElement root).mapError (fun e => .deserialization e.message)

end GrammarSet

namespace Store

variable {G : Type}

/-- Imports a text: its receipt or the reason of the refusal, and the collection after it. -/
def submit (b : Backend G) (g : GrammarSet G) (choice : GrammarChoice) (text : String)
    (s : Store) : Except ImportError Receipt × Store :=
  match g.accept b choice text with
  | .error e => (.error e, s)
  | .ok record =>
    match s.append record with
    | (.ok (), s) => (.ok { id := record.id, grammar := choice }, s)
    | (.error e, s) => (.error (.ofStore e), s)

end Store

/-! ## Files -/

/-- What has become of one file. -/
inductive ImportStatus where
  | imported (id : Int64)
  | rejected (errors : List String)
  | skipped
  | failed (message : String)
  deriving DecidableEq

namespace ImportStatus

/-- Whether a record was added. -/
def isImported : ImportStatus → Bool
  | .imported _ => true
  | _ => false

/-- Whether the file was refused. -/
def isRejected : ImportStatus → Bool
  | .rejected _ => true
  | _ => false

/-- Whether the file was not attempted. -/
def isSkipped : ImportStatus → Bool
  | .skipped => true
  | _ => false

/-- Whether the file could not be read. -/
def isFailed : ImportStatus → Bool
  | .failed _ => true
  | _ => false

/-- The word for the status. -/
def label : ImportStatus → String
  | .imported _ => "imported"
  | .rejected _ => "rejected"
  | .skipped => "skipped"
  | .failed _ => "failed"

end ImportStatus

/-- One file and what has become of it. -/
structure FileImport where
  path : RawText
  status : ImportStatus
  deriving DecidableEq

/-- What has become of all files, in their order. -/
structure ImportReport where
  files : List FileImport := []

namespace ImportReport

/-- The number of files whose status passes a test. -/
def count (r : ImportReport) (test : ImportStatus → Bool) : Nat :=
  r.files.countP (fun f => test f.status)

/-- The number of files that were imported. -/
def imported (r : ImportReport) : Nat := r.count ImportStatus.isImported

/-- The number of files that were refused. -/
def rejected (r : ImportReport) : Nat := r.count ImportStatus.isRejected

/-- The number of files that were not attempted. -/
def skipped (r : ImportReport) : Nat := r.count ImportStatus.isSkipped

/-- The number of files that could not be read. -/
def failed (r : ImportReport) : Nat := r.count ImportStatus.isFailed

/-- Whether a file was refused or could not be read. -/
def hasErrors (r : ImportReport) : Bool :=
  r.rejected > 0 || r.failed > 0

/-- A status as the members of a JSON object. -/
def statusMembers : ImportStatus → List (String × Json)
  | .imported id => [("status", .string "imported"), ("id", .ofInt id.toInt)]
  | .rejected errors => [("status", .string "rejected"), ("errors", .ofStrings errors)]
  | .skipped => [("status", .string "skipped")]
  | .failed message => [("status", .string "failed"), ("message", .string message)]

/-- One file as JSON, if its path is text. -/
def fileJson? (f : FileImport) : Option Json :=
  f.path.text?.map (fun path => .object (("path", .string path) :: statusMembers f.status))

/-- The report as JSON, if all paths are text. -/
def toJson? (r : ImportReport) : Option Json :=
  (r.files.mapM fileJson?).map (fun files =>
    .object
      [("total_files", .ofNat r.files.length), ("imported", .ofNat r.imported),
        ("rejected", .ofNat r.rejected), ("skipped", .ofNat r.skipped),
        ("failed", .ofNat r.failed), ("file_results", .array files)])

end ImportReport

namespace Store

variable {G : Type}

/-- Imports one file: what has become of it, and the collection after it. -/
def importFile (b : Backend G) (g : GrammarSet G) (files : Files.Volume) (choice : GrammarChoice)
    (path : RawText) (s : Store) : ImportStatus × Store :=
  match files.readText path with
  | .error e => (.failed e.message, s)
  | .ok text =>
    match s.submit b g choice text with
    | (.ok receipt, s) => (.imported receipt.id, s)
    | (.error e, s) => (.rejected e.messages, s)

/-- Imports files in order; `stopped` says that none is to be attempted any more. -/
def importAll (b : Backend G) (g : GrammarSet G) (files : Files.Volume) (choice : GrammarChoice)
    (failFast : Bool) : Bool → List RawText → Store → List FileImport × Store
  | _, [], s => ([], s)
  | stopped, path :: paths, s =>
    let (status, s) :=
      if stopped then (ImportStatus.skipped, s) else importFile b g files choice path s
    let (rest, s) :=
      importAll b g files choice failFast (stopped || (failFast && !status.isImported)) paths s
    ({ path := path, status := status } :: rest, s)

/-- Imports files in order, from the first one on. -/
def importFiles (b : Backend G) (g : GrammarSet G) (files : Files.Volume)
    (choice : GrammarChoice) (failFast : Bool) (paths : List RawText) (s : Store) :
    ImportReport × Store :=
  let (results, s) := importAll b g files choice failFast false paths s
  ({ files := results }, s)

end Store

end VideoCatalog
