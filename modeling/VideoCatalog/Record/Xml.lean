import VideoCatalog.Text.Integer
import VideoCatalog.Video
import VideoCatalog.Xml.Element
import VideoCatalog.Xml.Markup

/-!
The XML forms of a record. The external document is an `item` in no namespace, the internal one a
`video` under a namespace, and a search snapshot is a `videos` element with one `video` a record.
Three fields bear other names in the internal form; all else is the same.

The writer emits every field in a fixed order. The reader takes the fields in any order, keeps the
last occurrence of each, leaves out elements that it does not know, and gives a missing field its
default; it fails at the first number or truth value that it cannot read.
-/

namespace VideoCatalog

open Xml (Element Markup)

/-- The element names that differ between the external and the internal form. -/
structure FieldNames where
  uniqueId : String
  timeEnd : String
  dataSize : String

namespace FieldNames

/-- The names in an `item`. -/
def external : FieldNames :=
  { uniqueId := "unique_id", timeEnd := "time_end", dataSize := "data_size" }

/-- The names in a `video`. -/
def internal : FieldNames :=
  { uniqueId := "uniqueId", timeEnd := "timeEnd", dataSize := "dataSize" }

end FieldNames

/-! ## Writing -/

/-- A truth value in a document. -/
def truthText (b : Bool) : String :=
  if b then "true" else "false"

namespace Media

/-- A variant as an element. -/
def markup (names : FieldNames) (m : Media) : Markup :=
  .block "media" none <|
    [.leaf "url" m.url, .leaf names.dataSize (toString m.dataSize.toInt),
      .leaf "quality" m.quality, .leaf "extension" m.extension, .leaf "type" m.kind] ++
    match m.duration with
    | some d => [.leaf "duration" (toString d.toInt)]
    | none => []

end Media

namespace Record

/-- The list of variants as an element. -/
def mediasMarkup (names : FieldNames) (medias : List Media) : Markup :=
  if medias.isEmpty then .empty "medias"
  else .block "medias" none (medias.map (Media.markup names))

/-- The fields of a record as elements, in the order in which they are written. -/
def fieldMarkup (names : FieldNames) (r : Record) : List Markup :=
  [.leaf "url" r.url, .leaf "source" r.source, .leaf "id" (toString r.id.toInt),
    .leaf names.uniqueId r.uniqueId, .leaf "author" r.author, .leaf "title" r.title,
    .leaf "thumbnail" r.thumbnail, .leaf "duration" (toString r.duration.toInt),
    mediasMarkup names r.medias, .leaf "type" r.kind, .leaf "error" (truthText r.error),
    .leaf names.timeEnd (toString r.timeEnd.toInt)]

/-- The external document of a record. -/
def markup (r : Record) : Markup :=
  .block "item" none (fieldMarkup .external r)

/-- The text of the external document. -/
def toXml (r : Record) : String :=
  r.markup.document

end Record

namespace Video

/-- An internal document as an element; `uri` is declared on it if it is the root. -/
def markup (uri : Option String) (v : Video) : Markup :=
  .block "video" uri (Record.fieldMarkup .internal v.fields)

/-- The text of an internal document. -/
def toXml (v : Video) : String :=
  (markup (some v.uri) v).document

/-- A snapshot of a collection: one internal document a record, in order, all in the namespace of
the root. -/
def snapshotMarkup (records : List Record) : Markup :=
  .block "videos" (some videoNamespace)
    (records.map (fun r => markup none (ofRecord r)))

/-- The text of the snapshot of a collection. -/
def snapshot (records : List Record) : String :=
  (snapshotMarkup records).document

end Video

/-! ## Reading -/

/-- The types whose values can fail to be read. -/
inductive ValueKind where
  | int64
  | int32
  | truth
  deriving DecidableEq

namespace ValueKind

/-- The name of the type in an error. -/
def label : ValueKind → String
  | .int64 => "i64"
  | .int32 => "i32"
  | .truth => "boolean"

end ValueKind

/-- Why a document is not a record. -/
inductive ReadError where
  /-- It is no XML document. -/
  | malformed (details : String)
  /-- Its root is another element. -/
  | unexpectedRoot (expected found : String)
  /-- The text of an element is no value of the type of its field. -/
  | invalidValue (element value : String) (expected : ValueKind) (line : Nat)
  deriving DecidableEq

namespace ReadError

/-- The wording of the error. -/
def message : ReadError → String
  | .malformed details => details
  | .unexpectedRoot expected found =>
    "Unexpected root element <" ++ found ++ ">, expected <" ++ expected ++ ">"
  | .invalidValue element value expected line =>
    "Element <" ++ element ++ "> on line " ++ toString line ++ ": '" ++ value ++
      "' is not a valid " ++ expected.label

end ReadError

/-- The truth value that a text denotes. -/
def truth? (s : String) : Option Bool :=
  if s = "true" || s = "1" then some true
  else if s = "false" || s = "0" then some false
  else none

/-- The value of an element, after white space at the ends of its text is dropped. -/
def readValue {α : Type} (kind : ValueKind) (value? : String → Option α) (e : Element) :
    Except ReadError α :=
  match value? (Text.trim e.text) with
  | some a => .ok a
  | none => .error (.invalidValue e.name e.text kind e.line)

/-- An integer of 64 bits. -/
def readInt64 (e : Element) : Except ReadError Int64 :=
  readValue .int64 Text.int64? e

/-- An integer of 32 bits. -/
def readInt32 (e : Element) : Except ReadError Int32 :=
  readValue .int32 Text.int32? e

/-- A truth value. -/
def readTruth (e : Element) : Except ReadError Bool :=
  readValue .truth truth? e

namespace Media

/-- Takes one child of a variant into account. -/
def readField (names : FieldNames) (m : Media) (e : Element) : Except ReadError Media :=
  if e.name = "url" then .ok { m with url := e.text }
  else if e.name = "quality" then .ok { m with quality := e.text }
  else if e.name = "extension" then .ok { m with extension := e.text }
  else if e.name = "type" then .ok { m with kind := e.text }
  else if e.name = "duration" then (readInt32 e).map (fun v => { m with duration := some v })
  else if e.name = names.dataSize then (readInt64 e).map (fun v => { m with dataSize := v })
  else .ok m

/-- The variant that an element describes. -/
def ofElement (names : FieldNames) (e : Element) : Except ReadError Media :=
  e.children.foldlM (readField names) {}

end Media

namespace Record

/-- The variants that the children of an element describe. -/
def readMedias (names : FieldNames) (e : Element) : Except ReadError (List Media) :=
  (e.children.filter (fun c => c.name = "media")).mapM (Media.ofElement names)

/-- Takes one child of a record into account. -/
def readField (names : FieldNames) (r : Record) (e : Element) : Except ReadError Record :=
  if e.name = "url" then .ok { r with url := e.text }
  else if e.name = "source" then .ok { r with source := e.text }
  else if e.name = "id" then (readInt64 e).map (fun v => { r with id := v })
  else if e.name = "author" then .ok { r with author := e.text }
  else if e.name = "title" then .ok { r with title := e.text }
  else if e.name = "thumbnail" then .ok { r with thumbnail := e.text }
  else if e.name = "duration" then (readInt32 e).map (fun v => { r with duration := v })
  else if e.name = "type" then .ok { r with kind := e.text }
  else if e.name = "error" then (readTruth e).map (fun v => { r with error := v })
  else if e.name = "medias" then (readMedias names e).map (fun v => { r with medias := v })
  else if e.name = names.uniqueId then .ok { r with uniqueId := e.text }
  else if e.name = names.timeEnd then (readInt32 e).map (fun v => { r with timeEnd := v })
  else .ok r

/-- The record that the children of an element describe. -/
def readFields (names : FieldNames) (e : Element) : Except ReadError Record :=
  e.children.foldlM (readField names) {}

end Record

/-- The name of an element, with its namespace in braces in front. -/
def expandedName (e : Element) : String :=
  match e.uri with
  | some uri => "\x7b" ++ uri ++ "\x7d" ++ e.name
  | none => e.name

namespace Record

/-- The record that an external document describes. -/
def ofElement (e : Element) : Except ReadError Record :=
  if e.name = "item" && e.uri.isNone then readFields .external e
  else .error (.unexpectedRoot "item" (expandedName e))

end Record

namespace Video

/-- The internal document that an element describes, under the namespace of the element. -/
def ofElement (e : Element) : Except ReadError Video :=
  if e.name = "video" then
    (Record.readFields .internal e).map (fun r => { uri := e.uri.getD "", fields := r })
  else .error (.unexpectedRoot "video" (expandedName e))

end Video

end VideoCatalog
