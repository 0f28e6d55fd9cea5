import VideoCatalog.Record
import VideoCatalog.Json.Reader

/-!
The JSON form of a record. Members bear the names below in snake case, in this order; any of them
may be left out when a record is read, and the duration of a variant is left out when it is unknown.
-/

namespace VideoCatalog

namespace Json.Reader

/-- An integer of 64 bits. -/
def int64 : Reader Int64 := fun cs => do
  let (i, rest) ← integer Int64.minValue.toInt Int64.maxValue.toInt cs
  .ok (Int64.ofInt i, rest)

/-- An integer of 32 bits. -/
def int32 : Reader Int32 := fun cs => do
  let (i, rest) ← integer Int32.minValue.toInt Int32.maxValue.toInt cs
  .ok (Int32.ofInt i, rest)

/-- The member whose value is read by `value` and stored by `put`. -/
def field {σ α : Type} (name : String) (value : Reader α) (put : α → σ → σ) : Field σ :=
  ⟨name, fun cs => do
    let (a, rest) ← value cs
    .ok (put a, rest)⟩

end Json.Reader

open Json.Reader (field)

namespace Media

/-- The members of a variant. -/
def fields : List (Json.Reader.Field Media) :=
  [field "url" Json.Reader.string (fun v m => { m with url := v }),
    field "data_size" Json.Reader.int64 (fun v m => { m with dataSize := v }),
    field "quality" Json.Reader.string (fun v m => { m with quality := v }),
    field "extension" Json.Reader.string (fun v m => { m with extension := v }),
    field "type" Json.Reader.string (fun v m => { m with kind := v }),
    field "duration" (Json.Reader.optional Json.Reader.int32)
      (fun v m => { m with duration := v })]

/-- A variant as JSON. -/
def toJson (m : Media) : Json :=
  .object <|
    [("url", .string m.url), ("data_size", .ofInt m.dataSize.toInt),
      ("quality", .string m.quality), ("extension", .string m.extension),
      ("type", .string m.kind)] ++
    match m.duration with
    | some d => [("duration", .ofInt d.toInt)]
    | none => []

end Media

namespace Record

/-- The members of a record. -/
def fields : List (Json.Reader.Field Record) :=
  [field "id" Json.Reader.int64 (fun v r => { r with id := v }),
    field "url" Json.Reader.string (fun v r => { r with url := v }),
    field "source" Json.Reader.string (fun v r => { r with source := v }),
    field "unique_id" Json.Reader.string (fun v r => { r with uniqueId := v }),
    field "author" Json.Reader.string (fun v r => { r with author := v }),
    field "title" Json.Reader.string (fun v r => { r with title := v }),
    field "thumbnail" Json.Reader.string (fun v r => { r with thumbnail := v }),
    field "duration" Json.Reader.int32 (fun v r => { r with duration := v }),
    field "medias" (Json.Reader.list (Json.Reader.record Media.fields {}))
      (fun v r => { r with medias := v }),
    field "type" Json.Reader.string (fun v r => { r with kind := v }),
    field "error" Json.Reader.truth (fun v r => { r with error := v }),
    field "time_end" Json.Reader.int32 (fun v r => { r with timeEnd := v })]

/-- A record as JSON. -/
def toJson (r : Record) : Json :=
  .object
    [("id", .ofInt r.id.toInt), ("url", .string r.url), ("source", .string r.source),
      ("unique_id", .string r.uniqueId), ("author", .string r.author), ("title", .string r.title),
      ("thumbnail", .string r.thumbnail), ("duration", .ofInt r.duration.toInt),
      ("medias", .array (r.medias.map Media.toJson)), ("type", .string r.kind),
      ("error", .bool r.error), ("time_end", .ofInt r.timeEnd.toInt)]

/-- The record that a JSON text holds. -/
def ofJsonText (text : String) : Except Json.Fault Record :=
  Json.Reader.read (Json.Reader.record fields {}) text

end Record

end VideoCatalog
