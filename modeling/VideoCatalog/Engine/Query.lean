import VideoCatalog.Engine
import VideoCatalog.Text.Quoted

/-!
Queries over a document. Values that come from outside are bound to variables and never become part
of the expression, so they cannot change what is asked. A query keeps the calls made for it.
-/

namespace VideoCatalog

open Xml (Cursor Document)

/-- A call made to the engine for a query. -/
inductive QueryCall where
  | bindNamespace (qualifier uri : String)
  | bindVariable (name value : String)
  | evaluate (expression : String)
  deriving DecidableEq

/-- A query over a document: what is bound, and the calls made so far, in order. -/
structure Query where
  document : Document
  bindings : Bindings := {}
  calls : List QueryCall := []

/-- A step of a query. -/
abbrev QueryStep (α : Type) := ExceptT EngineError (StateM Query) α

/-- Refuses a text with a NUL in it. -/
def withoutNul (s : String) : Except EngineError Unit :=
  if s.toList.contains (Char.ofNat 0) then
    .error (.interiorNul
      (String.join (s.toList.map (fun c => if c.toNat = 0 then "\\0" else String.singleton c))))
  else .ok ()

namespace Query

variable {G : Type}

/-- A query over a document. -/
def start (b : Backend G) (d : Document) : Except EngineError Query :=
  if b.opensQuery d then .ok { document := d } else .error .outOfMemory

/-- Notes a call to the engine. -/
def note (call : QueryCall) : QueryStep Unit :=
  modify (fun q => { q with calls := q.calls ++ [call] })

/-- Binds a namespace to a qualifier. -/
def bindNamespace (b : Backend G) (qualifier uri : String) : QueryStep Unit := do
  ExceptT.mk (pure (withoutNul qualifier))
  ExceptT.mk (pure (withoutNul uri))
  note (.bindNamespace qualifier uri)
  if b.bindsNamespace qualifier uri then
    modify (fun q => { q with
      bindings := { q.bindings with namespaces := q.bindings.namespaces ++ [(qualifier, uri)] } })
  else
    throw (.query ("failed to register namespace prefix " ++ Text.quotedRaw qualifier))

/-- Binds a variable to a text. -/
def bindVariable (b : Backend G) (name value : String) : QueryStep Unit := do
  ExceptT.mk (pure (withoutNul name))
  ExceptT.mk (pure (withoutNul value))
  note (.bindVariable name value)
  if b.bindsVariable name value then
    modify (fun q => { q with
      bindings := { q.bindings with values := q.bindings.values ++ [(name, value)] } })
  else throw (.query ("failed to bind variable $" ++ name))

/-- The element that a node is, if it is one of the document. -/
def elementOf? (d : Document) : QueryNode → Option Cursor
  | .element path => d.at? path
  | .other => none

/-- The elements that an expression selects, in the order of the engine. -/
def select (b : Backend G) (expression : String) : QueryStep (List Cursor) := do
  ExceptT.mk (pure (withoutNul expression))
  note (.evaluate expression)
  let q ← get
  match b.evaluate q.document q.bindings expression with
  | .failed => throw (.query ("evaluation failed for '" ++ expression ++ "'"))
  | .notNodes => throw (.query ("'" ++ expression ++ "' did not evaluate to a node-set"))
  | .nodes selected => pure (selected.filterMap (elementOf? q.document))

end Query

end VideoCatalog
