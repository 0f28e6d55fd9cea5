import VideoCatalog.Record

/-!
The collection of imported records: an insertion-ordered list in which no two records share an id.
An operation that changes it gives an answer and leaves a collection behind, also where it fails.
-/

namespace VideoCatalog

/-- The records held, in the order in which they were added. -/
structure Store where
  records : List Record := []

/-- Why a collection refuses an operation. -/
inductive StoreError where
  /-- A record with that id is there already. -/
  | conflict (id : Int64)
  /-- There is no record with that id. -/
  | notFound (id : Int64)
  /-- The collection was left in an unknown state by a failed holder of its lock. -/
  | poisoned
  deriving DecidableEq

namespace StoreError

/-- The wording of the error. -/
def message : StoreError → String
  | .conflict id => "Item with ID " ++ toString id.toInt ++ " already exists."
  | .notFound id => "Item with ID " ++ toString id.toInt ++ " not found."
  | .poisoned => "Store lock poisoned"

end StoreError

namespace Store

/-- The ids held, in order. -/
def ids (s : Store) : List Int64 :=
  s.records.map Record.id

/-- Whether a record with that id is held. -/
def contains (s : Store) (id : Int64) : Bool :=
  s.records.any (fun r => r.id == id)

/-- The number of records. -/
def size (s : Store) : Nat :=
  s.records.length

/-- Whether there are no records. -/
def isEmpty (s : Store) : Bool :=
  s.size == 0

/-- The records, in order. -/
def toList (s : Store) : List Record :=
  s.records

/-- Adds a record at the end. -/
def append (s : Store) (r : Record) : Except StoreError Unit × Store :=
  if s.contains r.id then (.error (.conflict r.id), s)
  else (.ok (), { records := s.records ++ [r] })

/-- The record with that id. -/
def find (s : Store) (id : Int64) : Except StoreError Record :=
  match s.records.find? (fun r => r.id == id) with
  | some r => .ok r
  | none => .error (.notFound id)

/-- Puts a record in the place of the first one with that id. -/
def replaceFirst (id : Int64) (r : Record) : List Record → List Record
  | [] => []
  | x :: xs => if x.id == id then r :: xs else x :: replaceFirst id r xs

/-- Puts a record in the place of the one with that id; the record may bear a new id that no other
record has. -/
def replace (s : Store) (id : Int64) (r : Record) : Except StoreError Unit × Store :=
  if !s.contains id then (.error (.notFound id), s)
  else if r.id ≠ id && s.contains r.id then (.error (.conflict r.id), s)
  else (.ok (), { records := replaceFirst id r s.records })

/-- Takes out the record with that id. -/
def remove (s : Store) (id : Int64) : Except StoreError Unit × Store :=
  if s.contains id then (.ok (), { records := s.records.eraseP (fun r => r.id == id) })
  else (.error (.notFound id), s)

end Store

end VideoCatalog
