import Mathlib.Data.List.Nodup
import VideoCatalog.Proofs.Grammar.Indexing
import VideoCatalog.Proofs.Pattern.Building
import VideoCatalog.Proofs.Schema.Building

/-!
# Models are well-formed

What a reader has built when it comes to an end is a model in which nothing is left over from the
reading (`Dialect.WellFormed`), whether the grammar is recursive or leaves off in the middle of the
content of an element:

* its positions are those of its declarations;
* an element of the grammar has one declaration at most, which bears its name, and the compiler was
  called at most once for it;
* a declaration is unsupported only if its element is neither element-only nor has a standalone
  grammar that compiles, or if it has no element and stands for a reference to nothing.

Therefore no position lies outside its list in any listing, neither among the declarations nor in
the table of gains (`reading_well_formed`).
-/

namespace VideoCatalog.Grammar

open Xml (Cursor Document Element)

variable {G : Type} {document : Document} {compile : Compiler G}

/-- The model is well-formed, where `Entered` says for which element of the grammar document the
declaration at a position was entered, and `requests` are all calls of the compiler, in order.

A reference to nothing is no element that could have a declaration, and what is entered for it
belongs to no element; it is entered again each time that the reference is read. -/
structure Dialect.WellFormed (L : Dialect) (compile : Compiler G) (Entered : Cursor → Nat → Prop)
    (m : Model G) (requests : List String) : Prop where
  /-- Roots and particles refer to declarations, and particles bear their names. -/
  closed : m.IsClosed
  /-- An element has one declaration. -/
  once : ∀ {c index index'}, Entered c index → Entered c index' → index = index'
  /-- A declaration belongs to one element. -/
  apart : ∀ {c c' index}, Entered c index → Entered c' index → c = c'
  /-- It bears the name of the element. -/
  named : ∀ {c index}, Entered c index →
    ∃ d, m.declarations[index]? = some d ∧ d.name = L.nameOf c
  /-- Each call of the compiler was for the standalone grammar of another element, and the body of
  a declaration is what its element and the compiler say. -/
  asked : ∃ askers : List Cursor, askers.Nodup ∧
    List.Forall₂ (fun c text => (∃ index, Entered c index) ∧ L.textOf? c = some text)
      askers requests ∧
    ∀ {c index d}, Entered c index → m.declarations[index]? = some d →
      L.IsBody compile askers c d.body
  /-- A declaration without an element is not checked. -/
  rest : ∀ {index : Nat} {d : Declaration G}, m.declarations[index]? = some d →
    (∀ c, ¬Entered c index) → d.body = .unsupported
  /-- What is not checked has a reason. -/
  unsupported : ∀ {index : Nat} {d : Declaration G}, m.declarations[index]? = some d →
    d.body = .unsupported →
      (∃ c, Entered c index ∧ ¬L.IsElementOnly c ∧ (L.textOf? c = none ∨
        ∃ text i, L.textOf? c = some text ∧ requests[i]? = some text ∧ compile i text = none)) ∨
      (∀ c, ¬Entered c index) ∧ L.IsUndefined d.name

namespace BuiltBy

variable {L : Dialect} {askers : List Cursor} {s : Collected G} {m : Model G} {index : Nat}
  {d : Declaration G}

/-- A declaration was entered for an element, or it stands for a reference to nothing. -/
theorem entered_or_undefined (h : BuiltBy document L compile askers [] s)
    (hd : s.declarations[index]? = some d) :
    (∃ c, s.EnteredFor document c index) ∨
      (∀ c, ¬s.EnteredFor document c index) ∧ d.body = .unsupported ∧ L.IsUndefined d.name := by
  by_cases hentered : ∃ c, s.EnteredFor document c index
  · exact .inl hentered
  · refine .inr ⟨fun c hc => hentered ⟨c, hc⟩, ?_⟩
    refine (h.undefined hd).resolve_left ?_
    rintro ⟨path, hknown⟩
    obtain ⟨c, -, hc, rfl, -⟩ := h.recorded.stands hknown
    exact hentered ⟨c, hc, hknown⟩

/-- Nothing is pending in the end. -/
theorem isBody_of_enteredFor (h : BuiltBy document L compile askers [] s) {c : Cursor}
    (hc : s.EnteredFor document c index) (hd : s.declarations[index]? = some d) :
    L.IsBody compile askers c d.body :=
  h.settled hc.1 hc.2 List.not_mem_nil hd

theorem isClosed (h : BuiltBy document L compile askers [] s)
    (hm : m.declarations = s.declarations)
    (hroots : ∀ index ∈ m.roots, ∃ name, s.nameAt? index = some name) : m.IsClosed where
  roots := by
    intro index hindex
    obtain ⟨name, hname⟩ := hroots index hindex
    obtain ⟨d, hd, -⟩ := Option.map_eq_some_iff.mp hname
    exact hm ▸ (List.getElem?_eq_some_iff.mp hd).1
  particles := by
    intro d hd content hbody p hp
    obtain ⟨index, hindex⟩ := List.getElem?_of_mem (hm ▸ hd)
    have hname := h.targets hindex hbody p hp
    obtain ⟨target, htarget, hname⟩ := Option.map_eq_some_iff.mp hname
    exact ⟨target, hm ▸ htarget, hname⟩

/-- What has been built in the end is a well-formed model. -/
theorem wellFormed (h : BuiltBy document L compile askers [] s)
    (hm : m.declarations = s.declarations)
    (hroots : ∀ index ∈ m.roots, ∃ name, s.nameAt? index = some name) :
    L.WellFormed compile (s.EnteredFor document) m s.requests where
  closed := h.isClosed hm hroots
  once hc hc' := h.once hc.2 hc'.2
  apart hc hc' := h.recorded.eq_of_enteredFor hc hc'
  named := by
    intro c index hc
    obtain ⟨d, hd, hname⟩ := Option.map_eq_some_iff.mp (h.nameAt?_eq hc.1 hc.2)
    exact ⟨d, hm ▸ hd, hname⟩
  asked := by
    refine ⟨askers, List.Nodup.of_map Cursor.path h.askers.1, ?_, fun hc hd => ?_⟩
    · refine List.forall₂_iff_zip.mpr ⟨h.asked.length_eq, fun {c text} hmem => ⟨?_, ?_⟩⟩
      · obtain ⟨hholds, index, hknown, -⟩ := h.askers.2 c (List.of_mem_zip hmem).1
        exact ⟨index, hholds, hknown⟩
      · exact (List.forall₂_iff_zip.mp h.asked).2 hmem
    · exact h.isBody_of_enteredFor hc (hm ▸ hd)
  rest := by
    intro index d hd hnone
    rcases h.entered_or_undefined (hm ▸ hd) with ⟨c, hc⟩ | ⟨-, hbody, -⟩
    · exact absurd hc (hnone c)
    · exact hbody
  unsupported := by
    intro index d hd hbody
    rcases h.entered_or_undefined (hm ▸ hd) with ⟨c, hc⟩ | ⟨hnone, -, hundefined⟩
    · refine .inl ⟨c, hc, ?_⟩
      have hisBody := h.isBody_of_enteredFor hc (hm ▸ hd)
      rw [hbody] at hisBody
      cases hisBody with
      | unwritten honly htext => exact ⟨honly, .inl htext⟩
      | @refused text i honly htext hi hcompile =>
          refine ⟨honly, .inr ⟨text, i, htext, ?_, hcompile⟩⟩
          obtain ⟨hlt, hasker⟩ := List.getElem?_eq_some_iff.mp hi
          have hlt' : i < s.requests.length := h.asked.length_eq ▸ hlt
          have hrequest : L.textOf? askers[i] = some s.requests[i] := h.asked.get hlt hlt'
          rw [List.getElem?_eq_getElem hlt', ← hrequest, hasker, htext]
    · exact .inr ⟨hnone, hundefined⟩

end BuiltBy

/-- What is read from some roots is a well-formed model, if the roots build on what has been
built. -/
theorem wellFormed_of_builds {L : Dialect} {roots : Read G (List Nat)} {s : Collected G}
    {m : Model G}
    (hbuilds : Read.Builds (Built document L compile []) {} roots
      (fun found s => ∀ index ∈ found, ∃ name, s.nameAt? index = some name))
    (hrun : roots.run {} = some (m.roots, s)) (hm : m.declarations = s.declarations) :
    L.WellFormed compile (ReadFrom roots document) m s.requests := by
  obtain ⟨⟨askers, hbuilt⟩, -, hroots⟩ := hbuilds m.roots s ⟨[], .empty⟩ hrun
  have hentered : ReadFrom roots document = s.EnteredFor document := by
    funext c index
    refine propext ⟨?_, fun hc => ⟨m.roots, s, hrun, hc⟩⟩
    rintro ⟨found', s', hrun', hc⟩
    obtain ⟨-, rfl⟩ := Prod.mk.inj (Option.some.inj (hrun.symm.trans hrun'))
    exact hc
  rw [hentered]
  exact hbuilt.wellFormed hm hroots

namespace Schema

theorem enteredFor_eq {root : Cursor} (hroot : document.cursor? = some root) :
    EnteredFor compile document =
      ReadFrom (declarations (.ofRoot document root) compile (depthBound root.element))
        document := by
  funext c index
  exact propext ⟨fun hc => hc.readFrom hroot, fun hc => ⟨root, hroot, hc⟩⟩

theorem wellFormed_of_read {m : Model G} {requests : List String}
    (hread : read compile document = .finished (some m) requests) :
    ∃ root, document.cursor? = some root ∧
      (dialect document root).WellFormed compile (EnteredFor compile document) m requests := by
  unfold read readUpTo at hread
  split at hread
  · cases hread
  · next root hroot =>
    obtain ⟨element, helement, rfl⟩ := Option.map_eq_some_iff.mp hroot
    rw [helement, Option.map_some, Option.getD_some] at hread
    split at hread
    · split at hread
      · cases hread
      · next found s hrun =>
        cases hread
        have hbuilds := builds_declarations (Document.holds_root helement) compile
          (depthBound element) {}
        refine ⟨_, hroot, ?_⟩
        rw [enteredFor_eq hroot]
        exact wellFormed_of_builds hbuilds hrun rfl
    · cases hread

end Schema

namespace Pattern

theorem enteredFor_eq {root : Cursor} {roots : Read G (List Nat)}
    (hroot : document.cursor? = some root)
    (hroots : roots? (.ofRoot document root) compile (depthBound root.element) = some roots) :
    EnteredFor compile document = ReadFrom roots document := by
  funext c index
  exact propext ⟨fun hc => hc.readFrom hroot hroots, fun hc => ⟨root, roots, hroot, hroots, hc⟩⟩

theorem wellFormed_of_read {m : Model G} {requests : List String}
    (hread : read compile document = .finished (some m) requests) :
    ∃ root, document.cursor? = some root ∧
      (dialect document root).WellFormed compile (EnteredFor compile document) m requests := by
  cases helement : document.root with
  | none =>
      rw [read, readUpTo, Document.cursor?, helement] at hread
      cases hread
  | some element =>
      have hroot : document.cursor? = some { element := element } := by
        rw [Document.cursor?, helement]
        rfl
      rw [read, helement, Option.map_some, Option.getD_some, readUpTo_eq hroot] at hread
      split at hread
      · next roots hroots =>
        unfold finish at hread
        split at hread
        · cases hread
        · next found s hrun =>
          cases hread
          have hbuilds := builds_roots (Document.holds_root helement) compile hroots {}
          refine ⟨_, hroot, ?_⟩
          rw [enteredFor_eq hroot hroots]
          exact wellFormed_of_builds hbuilds hrun rfl
      · cases hread

end Pattern

/-- A model that was read is well-formed, and in no listing by it does a position lie outside its
list. -/
theorem reading_well_formed (compile : Compiler G) (document : Document) (m : Model G)
    (requests : List String) :
    (Schema.read compile document = .finished (some m) requests →
      ∃ root, document.cursor? = some root ∧
        (Schema.dialect document root).WellFormed compile (Schema.EnteredFor compile document) m
          requests ∧
        ∀ d top, m.explainWithin d top = some (m.explain d top)) ∧
    (Pattern.read compile document = .finished (some m) requests →
      ∃ root, document.cursor? = some root ∧
        (Pattern.dialect document root).WellFormed compile (Pattern.EnteredFor compile document) m
          requests ∧
        ∀ d top, m.explainWithin d top = some (m.explain d top)) := by
  constructor
  · intro hread
    obtain ⟨root, hroot, hwellFormed⟩ := Schema.wellFormed_of_read hread
    exact ⟨root, hroot, hwellFormed, hwellFormed.closed.explainWithin_eq⟩
  · intro hread
    obtain ⟨root, hroot, hwellFormed⟩ := Pattern.wellFormed_of_read hread
    exact ⟨root, hroot, hwellFormed, hwellFormed.closed.explainWithin_eq⟩

/-!
## An orchard

A tree has a label and then trees again. A bush holds a twig and a tree, and after them something
that the reader does not understand, so that the twig is entered for a content that comes to
nothing; the compiler refuses the standalone grammar of the bush. In the schema a tree may also have
something that is nowhere declared.
-/

namespace Orchard

/-- A compiler that refuses its third call. -/
def reluctant : Compiler Nat :=
  fun position _ => if position = 2 then none else some position

/-! ### As a schema -/

section

open Schema

def treeElement : Element :=
  component "element" [("name", "tree")]
    [sequenceOf []
      [component "element" [("name", "label"), ("type", "xs:string")] [],
       component "element" [("ref", "tree"), ("minOccurs", "0"), ("maxOccurs", "unbounded")] [],
       component "element" [("ref", "gone"), ("minOccurs", "0")] []]]

def bushElement : Element :=
  component "element" [("name", "bush")]
    [sequenceOf []
      [component "element" [("name", "twig"), ("type", "xs:string")] [],
       component "element" [("ref", "tree")] [], component "any" [] []]]

def schema : Document :=
  Schema.documentOf [treeElement, bushElement]

def schemaModel : Model Nat where
  declarations :=
    [{ name := "tree"
       body := .children
         { ordered := true
           particles := [⟨1, "label", 1, some 1⟩, ⟨0, "tree", 0, none⟩, ⟨2, "gone", 0, some 1⟩] } },
     { name := "label", body := .isolated 0 },
     { name := "gone", body := .unsupported },
     { name := "bush", body := .unsupported },
     { name := "twig", body := .isolated 1 }]
  roots := [0, 3]

end

/-! ### As a grammar of patterns -/

section

open Pattern

def named (name : String) (children : List Element) : Element :=
  part "element" [("name", name)] children

def reference (name : String) : Element :=
  part "ref" [("name", name)] []

def treePattern : Element :=
  named "tree"
    [named "label" [part "text" [] []], part "zeroOrMore" [] [reference "tree"],
     part "optional" [] [reference "bush"]]

def bushPattern : Element :=
  named "bush" [named "twig" [part "text" [] []], reference "tree", part "text" [] []]

def grammar : Document :=
  Pattern.documentOf
    [part "start" [] [reference "tree"], part "define" [("name", "tree")] [treePattern],
     part "define" [("name", "bush")] [bushPattern]]

def grammarModel : Model Nat where
  declarations :=
    [{ name := "tree"
       body := .children
         { ordered := true
           particles := [⟨1, "label", 1, some 1⟩, ⟨0, "tree", 0, none⟩, ⟨2, "bush", 0, some 1⟩] } },
     { name := "label", body := .isolated 0 },
     { name := "bush", body := .unsupported },
     { name := "twig", body := .isolated 1 }]
  roots := [0]

end

/-- The standalone schemas that are compiled for the schema. -/
def schemaRequests : List String :=
  [Schema.standaloneOf "<xs:element name=\"label\" type=\"xs:string\"/>",
   Schema.standaloneOf "<xs:element name=\"twig\" type=\"xs:string\"/>", Schema.standaloneOf ""]

/-- Both are read to the end, past the bush that comes to nothing and the reference to
nothing, and what is read is well-formed. -/
theorem reading_well_formed_orchard :
    Schema.read reluctant schema = .finished (some schemaModel) schemaRequests ∧
    Pattern.read reluctant grammar =
      .finished (some grammarModel) (List.replicate 3 Pattern.standaloneText) ∧
    (∃ root, schema.cursor? = some root ∧
      (Schema.dialect schema root).WellFormed reluctant (Schema.EnteredFor reluctant schema)
        schemaModel schemaRequests ∧
      ∀ d top, schemaModel.explainWithin d top = some (schemaModel.explain d top)) ∧
    ∃ root, grammar.cursor? = some root ∧
      (Pattern.dialect grammar root).WellFormed reluctant (Pattern.EnteredFor reluctant grammar)
        grammarModel (List.replicate 3 Pattern.standaloneText) ∧
      ∀ d top, grammarModel.explainWithin d top = some (grammarModel.explain d top) := by
  have hschema : Schema.read reluctant schema =
      .finished (some schemaModel) schemaRequests := by
    decide +kernel
  have hgrammar : Pattern.read reluctant grammar =
      .finished (some grammarModel) (List.replicate 3 Pattern.standaloneText) := by
    decide +kernel
  exact ⟨hschema, hgrammar, (reading_well_formed reluctant schema _ _).1 hschema,
    (reading_well_formed reluctant grammar _ _).2 hgrammar⟩

end Orchard

end VideoCatalog.Grammar
