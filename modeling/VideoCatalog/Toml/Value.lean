/-!
TOML values, and how the lines of a document build them up.

A table remembers how it came about, because that decides what may still be added to it: a header
opens a table once, also one that so far is only implied by the headers of tables inside it; a
dotted key adds only to tables that dotted keys have made; nothing is added to an inline table.
-/

namespace VideoCatalog.Toml

/-- How a table came about. -/
inductive Origin where
  /-- By a header of its own, or as the document itself. -/
  | header
  /-- By the header of a table inside it. -/
  | implied
  /-- By a dotted key. -/
  | dotted
  /-- Between braces. -/
  | inline
  deriving DecidableEq

/-- A value. -/
inductive Value where
  | string (s : String)
  | integer (i : Int)
  /-- A number with a fraction or an exponent, infinite or no number at all; it is not kept. -/
  | float
  | boolean (b : Bool)
  /-- A date, a time or both; it is not kept. -/
  | datetime
  /-- An array between brackets. -/
  | array (items : List Value)
  /-- The tables under headers in double brackets. -/
  | tables (items : List Value)
  | table (origin : Origin) (members : List (String × Value))

/-- The members of a table. -/
abbrev Members := List (String × Value)

namespace Members

/-- The value of a member. -/
def find? (key : String) (ms : Members) : Option Value :=
  ms.lookup key

/-- The members with the value of one replaced, or with a new one at the end. -/
def put (key : String) (v : Value) : Members → Members
  | [] => [(key, v)]
  | (k, old) :: ms => if k = key then (k, v) :: ms else (k, old) :: put key v ms

/-- Changes the table at the end of a path of keys. Tables that are missing on the way are made:
`dotted` tells whether the path is that of a dotted key or that of a header. -/
def changeAt (dotted : Bool) (change : Origin → Members → Option Members) :
    List String → Origin → Members → Option Members
  | [], origin, ms => change origin ms
  | key :: path, _, ms =>
    match find? key ms with
    | none => do
      let origin : Origin := if dotted then .dotted else .implied
      let inner ← changeAt dotted change path origin []
      some (put key (.table origin inner) ms)
    | some (.table origin inner) =>
      if origin = .inline || (dotted && origin = .header) then none
      else do
        let inner ← changeAt dotted change path origin inner
        some (put key (.table origin inner) ms)
    | some (.tables items) =>
      match items.getLast? with
      | some (.table origin inner) =>
        if dotted && origin = .header then none
        else do
          let inner ← changeAt dotted change path origin inner
          some (put key (.tables (items.dropLast ++ [.table origin inner])) ms)
      | _ => none
    | some _ => none

/-- Adds a member to a table. The table at the end of a dotted key must have been made by dotted
keys, and only that one. -/
def add (isDotted : Bool) (key : String) (v : Value) (origin : Origin) (ms : Members) :
    Option Members :=
  if (origin = .dotted) ≠ isDotted || (find? key ms).isSome then none
  else some (put key v ms)

/-- Adds a member under a key that may be dotted. -/
def addAt (path : List String) (key : String) (v : Value) (origin : Origin) (ms : Members) :
    Option Members :=
  changeAt true (add (!path.isEmpty) key v) path origin ms

/-- Opens the table of a header: a new one, or one that is only implied so far. -/
def openTable (key : String) (ms : Members) : Option Members :=
  match find? key ms with
  | none => some (put key (.table .header []) ms)
  | some (.table .implied inner) => some (put key (.table .header inner) ms)
  | some _ => none

/-- Opens one more of the tables under a header in double brackets. -/
def openNextTable (key : String) (ms : Members) : Option Members :=
  match find? key ms with
  | none => some (put key (.tables [.table .header []]) ms)
  | some (.tables items) => some (put key (.tables (items ++ [.table .header []])) ms)
  | some _ => none

end Members

end VideoCatalog.Toml
