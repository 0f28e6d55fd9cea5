import Mathlib.Data.List.Infix
import VideoCatalog.Engine.Structural
import VideoCatalog.Proofs.Xml.Place
import VideoCatalog.Search

/-!
# What the expression of the search means

To the library the expression is a text, and what is made of it is up to the engine. Here is the
part of XPath 1.0 that it is written in: absolute paths of steps to the children of a name, with a
predicate made of variables, `translate`, `contains` and `or`. `Search.query` is the path that the
expression is the text of (`Search.text_query`), and `Path.nodes?` gives the elements that a path
leads to in a document.

Nothing is said where an evaluation fails, as with a name that is not bound; nor of the string value
of an element with children, since an element keeps its text apart from them. The entries of a
snapshot have the texts that are asked for in leaves, so this is no loss.
-/

namespace VideoCatalog

open Xml (Cursor Document Element)

namespace XPath

/-! ## Expressions -/

/-- A name as an expression writes it. -/
structure Name where
  qualifier : Option String
  name : String

/-- The expressions that a predicate is made of. -/
inductive Expr where
  /-- The text bound to a variable. -/
  | bound (name : String)
  /-- The children of this name. -/
  | child (name : Name)
  /-- The text with the characters of one text replaced by those of another. -/
  | translate (s source target : Expr)
  /-- Whether a text holds another. -/
  | contains (s part : Expr)
  /-- Whether one of two values is true. -/
  | or (p q : Expr)

/-- A step to the children of a name for which the predicate holds, if there is one. -/
structure Step where
  name : Name
  predicate : Option Expr := none

/-- A path from the document itself, whose one child is the root element. -/
structure Path where
  first : Step
  rest : List Step

/-- The name as a text. -/
def Name.text (n : Name) : String :=
  Xml.qualified n.qualifier n.name

/-- The expression as a text. -/
def Expr.text : Expr → String
  | .bound name => "$" ++ name
  | .child name => name.text
  | .translate s source target =>
    "translate(" ++ s.text ++ ", " ++ source.text ++ ", " ++ target.text ++ ")"
  | .contains s part => "contains(" ++ s.text ++ ", " ++ part.text ++ ")"
  | .or p q => p.text ++ " or " ++ q.text

/-- The step as a text. -/
def Step.text (s : Step) : String :=
  match s.predicate with
  | some p => "/" ++ s.name.text ++ "[" ++ p.text ++ "]"
  | none => "/" ++ s.name.text

/-- The path as a text. -/
def Path.text (p : Path) : String :=
  String.join ((p.first :: p.rest).map Step.text)

/-! ## Values -/

/-- What an expression evaluates to; nodes are in document order. -/
inductive Value where
  | text (s : String)
  | truth (t : Bool)
  | nodes (es : List Element)

/-- The string value of an element: all text inside it. -/
def stringValue? (e : Element) : Option String :=
  if e.children.isEmpty then some e.text else none

/-- The value as a text; that of nodes is the string value of the first. -/
def Value.string? : Value → Option String
  | .text s => some s
  | .truth t => some (truthText t)
  | .nodes [] => some ""
  | .nodes (e :: _) => stringValue? e

@[simp]
theorem Value.string?_text (s : String) : (Value.text s).string? = some s :=
  rfl

/-- The value as a truth value. -/
def Value.boolean : Value → Bool
  | .text s => !s.isEmpty
  | .truth t => t
  | .nodes es => !es.isEmpty

/-! ## Evaluation -/

/-- The elements that a name stands for; one without a qualifier is in no namespace. -/
def Name.test? (b : Bindings) (n : Name) : Option (Element → Bool) :=
  match n.qualifier with
  | some q => (b.namespaces.lookup q).map (fun uri e => e.isIn uri n.name)
  | none => some (fun e => e.uri.isNone && e.name == n.name)

/-- The value of an expression at an element. -/
def Expr.eval? (b : Bindings) (e : Element) : Expr → Option Value
  | .bound name => (b.values.lookup name).map .text
  | .child name => (name.test? b).map (fun test => .nodes (e.children.filter test))
  | .translate s source target => do
    let s ← (← s.eval? b e).string?
    let source ← (← source.eval? b e).string?
    let target ← (← target.eval? b e).string?
    some (.text (Text.translate s source target))
  | .contains s part => do
    let s ← (← s.eval? b e).string?
    let part ← (← part.eval? b e).string?
    some (.truth (decide (part.toList <:+: s.toList)))
  | .or p q => do
    -- The second value is looked at only if the first is not true.
    if (← p.eval? b e).boolean then some (.truth true)
    else some (.truth (← q.eval? b e).boolean)

/-- Whether a predicate holds at an element. -/
def holds? (b : Bindings) (p : Option Expr) (e : Element) : Option Bool :=
  match p with
  | some p => (p.eval? b e).map Value.boolean
  | none => some true

/-- The cursors at whose elements a test succeeds, if it has an answer at all of them. -/
def keep? (test : Element → Option Bool) : List Cursor → Option (List Cursor)
  | [] => some []
  | c :: cs => do
    let here ← test c.element
    let rest ← keep? test cs
    some (if here then c :: rest else rest)

/-- The nodes among some that a step leads to. -/
def Step.among? (b : Bindings) (s : Step) (cs : List Cursor) : Option (List Cursor) := do
  let test ← s.name.test? b
  keep? (holds? b s.predicate) (cs.filter (fun c => test c.element))

/-- The nodes that some steps lead to from others. -/
def follow? (b : Bindings) : List Step → List Cursor → Option (List Cursor)
  | [], reached => some reached
  | s :: steps, reached => do
    let next ← s.among? b (reached.flatMap Cursor.children)
    follow? b steps next

/-- The nodes that a path leads to in a document. -/
def Path.nodes? (b : Bindings) (d : Document) (p : Path) : Option (List Cursor) := do
  let reached ← p.first.among? b d.cursor?.toList
  follow? b p.rest reached

end XPath

/-! ## The expression of the search -/

namespace Search

open XPath (Expr Path Value)

/-- Whether a field of an entry holds the term, as the expression asks it. -/
def asks (field : String) : Expr :=
  .contains (.translate (.child ⟨some qualifier, field⟩) (.bound "upper") (.bound "lower"))
    (.bound "term")

/-- The path that the expression of the search is written for. -/
def query : Path where
  first := { name := ⟨some qualifier, "videos"⟩ }
  rest := [{
    name := ⟨some qualifier, "video"⟩
    predicate := some (.or (asks "title") (asks "author")) }]

theorem text_query : query.text = expression := by
  decide

/-- What a search binds for a folded term. -/
def bindings (term : String) : Bindings where
  namespaces := [(qualifier, videoNamespace)]
  values := [("upper", Text.caseFolding.upper), ("lower", Text.caseFolding.lower), ("term", term)]

end Search

/-! ## Evaluating it -/

namespace XPath

theorem keep?_of_eq {test : Element → Option Bool} {q : Element → Bool} {cs : List Cursor}
    (h : ∀ c ∈ cs, test c.element = some (q c.element)) :
    keep? test cs = some (cs.filter (fun c => q c.element)) := by
  induction cs with
  | nil => rfl
  | cons c cs ih =>
      rw [keep?, h c List.mem_cons_self, ih (fun d hd => h d (List.mem_cons_of_mem _ hd)),
        List.filter_cons]
      rfl

/-- What is kept are the cursors at whose elements the test succeeds. -/
theorem eq_filter_of_keep? {test : Element → Option Bool} {q : Element → Bool}
    (hq : ∀ e v, test e = some v → q e = v) :
    ∀ {cs kept : List Cursor}, keep? test cs = some kept → kept = cs.filter (fun c => q c.element)
  | [], kept, h => (Option.some.inj h).symm
  | c :: cs, kept, h => by
      obtain ⟨here, hhere, h⟩ := Option.bind_eq_some_iff.mp h
      obtain ⟨rest, hrest, h⟩ := Option.bind_eq_some_iff.mp h
      rw [List.filter_cons, hq c.element here hhere, ← eq_filter_of_keep? hq hrest]
      exact (Option.some.inj h).symm

end XPath

namespace Search

open XPath (Value holds? keep?)

/-- A field holds the term if the text of the first child of its name does, once it is folded. -/
theorem eval?_asks (field term : String) (e : Element) :
    (asks field).eval? (bindings term) e =
      (Value.string? (.nodes (e.children.filter (fun c => c.isIn videoNamespace field)))).map
        (fun s => .truth (decide (term.toList <:+:
          (Text.translate s Text.caseFolding.upper Text.caseFolding.lower).toList))) := by
  have hname : (⟨some qualifier, field⟩ : XPath.Name).test? (bindings term) =
      some (fun c => c.isIn videoNamespace field) := rfl
  have hupper : (bindings term).values.lookup "upper" = some Text.caseFolding.upper := rfl
  have hlower : (bindings term).values.lookup "lower" = some Text.caseFolding.lower := rfl
  have hterm : (bindings term).values.lookup "term" = some term := rfl
  simp only [asks, XPath.Expr.eval?, hname, hupper, hlower, hterm, Option.map_some,
    Option.bind_eq_bind, Option.bind_some, Value.string?_text]
  cases Value.string? (.nodes (e.children.filter (fun c => c.isIn videoNamespace field))) <;> rfl

/-- What the predicate of the expression asks of an entry. -/
def isMatch? (term : String) (e : Element) : Option Bool :=
  holds? (bindings term) (some (.or (asks "title") (asks "author"))) e

theorem isMatch?_eq (term : String) (e : Element) :
    isMatch? term e = ((asks "title").eval? (bindings term) e).bind (fun v =>
      if v.boolean then some true
      else ((asks "author").eval? (bindings term) e).map Value.boolean) := by
  rw [isMatch?, holds?, XPath.Expr.eval?]
  cases (asks "title").eval? (bindings term) e with
  | none => rfl
  | some v =>
      simp only [Option.bind_eq_bind, Option.bind_some]
      cases v.boolean with
      | true => rfl
      | false => cases (asks "author").eval? (bindings term) e <;> rfl

theorem nodes?_query (term : String) {d : Document} {root : Element} (h : d.root = some root) :
    query.nodes? (bindings term) d =
      if root.isIn videoNamespace "videos" then
        keep? (isMatch? term) ((Cursor.children { element := root }).filter
          (fun c => c.element.isIn videoNamespace "video"))
      else some [] := by
  have hcursor : d.cursor?.toList = [{ element := root }] := by
    rw [Document.cursor?, h]
    rfl
  have hfirst : query.first.among? (bindings term) [{ element := root }] =
      some (if root.isIn videoNamespace "videos" then [{ element := root }] else []) := by
    show keep? _
      ([{ element := root }].filter (fun c => c.element.isIn videoNamespace "videos")) = _
    cases hroot : root.isIn videoNamespace "videos" with
    | false => rw [List.filter_cons_of_neg (by simp [hroot])]; rfl
    | true => rw [List.filter_cons_of_pos (by simp [hroot])]; rfl
  have hrest : ∀ cs : List Cursor, XPath.follow? (bindings term) query.rest cs =
      keep? (isMatch? term) ((cs.flatMap Cursor.children).filter
        (fun c => c.element.isIn videoNamespace "video")) := fun cs => Option.bind_fun_some _
  rw [XPath.Path.nodes?, hcursor, hfirst, Option.bind_eq_bind, Option.bind_some, hrest]
  split
  · rw [List.flatMap_singleton]
  · rfl

end Search

/-- In a document with a root, the engine selects the elements that the expression of the search
leads to as XPath has it. -/
def Backend.Evaluates {G : Type} (b : Backend G) : Prop :=
  ∀ (d : Document) (root : Element) (term : String) (cs : List Cursor), d.root = some root →
    Search.query.nodes? (Search.bindings term) d = some cs →
      b.evaluate d (Search.bindings term) Search.query.text =
        .nodes (cs.map (fun c => .element c.path))

/-! ## The structural engine -/

namespace Structural

open XPath (Value)

theorem occursIn_iff {part : List Char} : ∀ {cs : List Char}, occursIn part cs = true ↔ part <:+: cs
  | [] => by
      rw [occursIn, List.isEmpty_iff, List.infix_nil]
  | c :: cs => by
      rw [occursIn, Bool.or_eq_true, List.isPrefixOf_iff_prefix, occursIn_iff, List.infix_cons_iff]

theorem holdsTerm_of_eval? {field term : String} {e : Element} {v : Value}
    (h : (Search.asks field).eval? (Search.bindings term) e = some v) :
    holdsTerm videoNamespace Text.caseFolding.upper Text.caseFolding.lower term field e =
      v.boolean := by
  rw [Search.eval?_asks] at h
  obtain ⟨s, hs, rfl⟩ := Option.map_eq_some_iff.mp h
  have hoccurs : ∀ cs : List Char, occursIn term.toList cs = decide (term.toList <:+: cs) := by
    intro cs
    rw [Bool.eq_iff_iff, occursIn_iff, decide_eq_true_iff]
  -- The first child of the name is the first node of the set, on both sides.
  rw [holdsTerm, ← List.head?_filter]
  cases hfound : e.children.filter (fun c => c.isIn videoNamespace field) with
  | nil =>
      rw [hfound] at hs
      obtain rfl := Option.some.inj hs
      have hempty : (Text.translate "" Text.caseFolding.upper Text.caseFolding.lower).toList = [] :=
        rfl
      show term.isEmpty = decide _
      rw [hempty, Bool.eq_iff_iff, decide_eq_true_iff, List.infix_nil, String.isEmpty_iff,
        String.toList_eq_nil_iff]
  | cons x xs =>
      rw [hfound] at hs
      have hleaf : x.children.isEmpty = true ∧ x.text = s := by
        simpa [Value.string?, XPath.stringValue?] using hs
      obtain ⟨-, rfl⟩ := hleaf
      exact hoccurs _

theorem isMatch_of_isMatch? {term : String} {e : Element} {t : Bool}
    (h : Search.isMatch? term e = some t) :
    (holdsTerm videoNamespace Text.caseFolding.upper Text.caseFolding.lower term "title" e ||
      holdsTerm videoNamespace Text.caseFolding.upper Text.caseFolding.lower term "author" e) =
        t := by
  rw [Search.isMatch?_eq] at h
  obtain ⟨title, htitle, h⟩ := Option.bind_eq_some_iff.mp h
  rw [holdsTerm_of_eval? htitle]
  cases hboolean : title.boolean with
  | true =>
      rw [hboolean] at h
      exact Option.some.inj h
  | false =>
      rw [hboolean] at h
      obtain ⟨author, hauthor, rfl⟩ := Option.map_eq_some_iff.mp h
      rw [holdsTerm_of_eval? hauthor, Bool.false_or]

/-- The structural engine selects what the expression of the search leads to. -/
theorem evaluates : backend.Evaluates := by
  intro d root term cs hroot hcs
  have hevaluate : backend.evaluate d (Search.bindings term) Search.query.text =
      .nodes (selected videoNamespace Text.caseFolding.upper Text.caseFolding.lower term root) := by
    show evaluate d (Search.bindings term) Search.query.text = _
    rw [evaluate, Search.text_query, hroot]
    rfl
  rw [hevaluate, selected]
  rw [Search.nodes?_query term hroot] at hcs
  split at hcs
  case isTrue hvideos =>
    have hmatches : cs = (Cursor.children { element := root }).filter (fun c =>
        isMatch videoNamespace Text.caseFolding.upper Text.caseFolding.lower term c.element) := by
      rw [XPath.eq_filter_of_keep? (fun _ _ h => isMatch_of_isMatch? h) hcs, List.filter_filter]
      exact List.filter_congr fun c _ => Bool.and_comm _ _
    rw [if_pos hvideos, hmatches, Cursor.children, Cursor.childrenFrom_eq_map, List.filter_map,
      List.map_map]
    rfl
  case isFalse hvideos =>
    rw [if_neg hvideos, ← Option.some.inj hcs]
    rfl

end Structural

end VideoCatalog
