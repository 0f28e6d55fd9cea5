import VideoCatalog.Engine
import VideoCatalog.Record.Xml

/-!
Reading the text of an external document as a record, by way of the engine that parses it.
-/

namespace VideoCatalog

namespace Record

variable {G : Type}

/-- The record that a document describes. -/
def ofDocument (d : Xml.Document) : Except ReadError Record :=
  match d.root with
  | some root => ofElement root
  | none => .error (.malformed "document has no root element")

/-- The record that a text describes. -/
def ofText (b : Backend G) (text : String) : Except ReadError Record :=
  match b.document text with
  | .ok d => ofDocument d
  | .error e => .error (.malformed e.message)

end Record

end VideoCatalog
