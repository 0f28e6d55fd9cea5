import VideoCatalog.Proofs.Grammar.Standalone
import VideoCatalog.Proofs.Pattern.Listing

/-!
# The context of patterns in standalone grammars

What a pattern means depends on its place: on the values of `ns` and `datatypeLibrary` that it
inherits, and on the namespaces that its qualifiers stand for. A standalone grammar is a new root
around copies of one element pattern `c` and of all definitions, and this root supplies what is in
force at `c`. Its text is read back, and the context of each copy is compared with that of the part
it was made from (`SameContext`).

They are the same exactly if what the part takes from around it is what is in force at `c`, as
attributes carry it (`Supplies`, `standalone_keeps_context_iff`). For a definition this can fail,
since it stands elsewhere in the grammar than `c` does.
-/

namespace VideoCatalog.Grammar.Pattern

open Xml (Cursor Document Element Written Writes)

/-! ## Contexts -/

/-- The attributes that hold for all patterns below the element on which they stand. -/
def contextNames : List String :=
  ["datatypeLibrary", "ns"]

/-- The value that such an attribute has for a pattern; the empty text if none is set. -/
def effective (c : Cursor) (name : String) : String :=
  (c.inherited? name).getD ""

/-- Inherited values and qualifiers are the same at two places. -/
structure SameContext (k k' : Cursor) : Prop where
  attributes : ∀ name ∈ contextNames, effective k' name = effective k name
  bindings : ∀ q, k'.binding? q = k.binding? q

/-- What a part takes from around it is what is in force at `c`, as attributes carry it. -/
structure Supplies (c k : Cursor) : Prop where
  attributes : ∀ name ∈ contextNames, k.element.attribute? name = none →
    Xml.inAttribute (effective c name) = effective k name
  bindings : ∀ q, (∀ d ∈ k.element.tag.declarations, d.qualifier ≠ q) →
    (c.binding? q).map Xml.inAttribute = k.binding? q

theorem isPlainName_of_mem {name : String} (h : name ∈ contextNames) :
    Xml.isPlainName name = true ∧ name ≠ "xmlns" := by
  have hall : ∀ name ∈ contextNames, Xml.isPlainName name = true ∧ name ≠ "xmlns" := by decide
  exact hall name h

/-- A value is set on the element, or it comes from around it. -/
theorem inherited?_eq (c : Cursor) (name : String) :
    c.inherited? name =
      (c.element.attribute? name).or (c.ancestors.findSome? (fun e => e.attribute? name)) := by
  rw [Cursor.inherited?, Cursor.scope, List.findSome?_cons]
  cases c.element.attribute? name <;> rfl

/-- A copy of the part `k` that gets from around it what the new root carries of `c`. -/
structure IsPlaced (c k k' : Cursor) : Prop where
  legible : k.Legible
  copy : k'.element.IsCopyOf k.element
  outer : k'.outer = carriedScope c
  around : ∀ name ∈ contextNames, k'.ancestors.findSome? (fun e => e.attribute? name) =
    (c.inherited? name).map Xml.inAttribute

namespace IsPlaced

variable {c k k' : Cursor} {name : String}

/-- A value that is set on the part is kept. -/
theorem effective_of_attribute? (h : IsPlaced c k k') (hname : name ∈ contextNames) {value : String}
    (hvalue : k.element.attribute? name = some value) : effective k' name = effective k name := by
  obtain ⟨hplain, hother⟩ := isPlainName_of_mem hname
  have hsame := h.copy.attribute? h.legible.element hplain hother
  rw [effective, effective, inherited?_eq, inherited?_eq, hsame, hvalue]
  rfl

/-- Any other value is that of `c`. -/
theorem effective_of_none (h : IsPlaced c k k') (hname : name ∈ contextNames)
    (hnone : k.element.attribute? name = none) :
    effective k' name = Xml.inAttribute (effective c name) := by
  obtain ⟨hplain, hother⟩ := isPlainName_of_mem hname
  have hsame := h.copy.attribute? h.legible.element hplain hother
  rw [effective, inherited?_eq, hsame, hnone, Option.none_or, h.around name hname, effective]
  cases c.inherited? name with
  | none => exact (Xml.inAttribute_eq_empty_iff.mpr rfl).symm
  | some value => rfl

theorem binding?_eq (h : IsPlaced c k k') (q : Option String) :
    k'.binding? q = Xml.lookup? (k.element.tag.declarations ++ carriedScope c) q := by
  rw [Cursor.binding?, Cursor.inForce, h.copy.declarations h.legible.element, h.outer]

/-- The copy is in the context of its original exactly if the original gets from around it what the
copy gets. -/
theorem sameContext_iff (h : IsPlaced c k k') : SameContext k k' ↔ Supplies c k := by
  constructor
  · intro hsame
    refine ⟨fun name hname hnone => ?_, fun q => ?_⟩
    · rw [← h.effective_of_none hname hnone, hsame.attributes name hname]
    · exact (lookup?_copy_eq_iff c k q).mp ((h.binding?_eq q).symm.trans (hsame.bindings q))
  · intro hsupplies
    refine ⟨fun name hname => ?_, fun q => ?_⟩
    · cases hvalue : k.element.attribute? name with
      | none =>
          rw [h.effective_of_none hname hvalue, hsupplies.attributes name hname hvalue]
      | some value => exact h.effective_of_attribute? hname hvalue
    · exact (h.binding?_eq q).trans ((lookup?_copy_eq_iff c k q).mpr (hsupplies.bindings q))

end IsPlaced

/-! ## The attributes of the new root -/

theorem lookup_inheritedAttributes (c : Cursor) {name : String} (h : name ∈ contextNames) :
    (inheritedAttributes c).lookup name = c.inherited? name := by
  have hcases : name = "datatypeLibrary" ∨ name = "ns" := by simpa [contextNames] using h
  rcases hcases with rfl | rfl <;>
    cases hlibrary : c.inherited? "datatypeLibrary" <;> cases hns : c.inherited? "ns" <;>
      simp [inheritedAttributes, hlibrary, hns, List.lookup_cons]

theorem mem_contextNames_of_mem {c : Cursor} {a : String × String}
    (h : a ∈ inheritedAttributes c) : a.1 ∈ contextNames := by
  obtain ⟨name, hname, ha⟩ := List.mem_filterMap.mp h
  obtain ⟨value, -, rfl⟩ := Option.map_eq_some_iff.mp ha
  exact hname

theorem areAttributes_inheritedAttributes (c : Cursor) :
    Xml.AreAttributes (inheritedAttributes c) where
  names := fun a ha =>
    Xml.isName_of_isPlainName (isPlainName_of_mem (mem_contextNames_of_mem ha)).1
  distinct := by
    cases hlibrary : c.inherited? "datatypeLibrary" <;> cases hns : c.inherited? "ns" <;>
      simp [inheritedAttributes, hlibrary, hns]

theorem declaration?_inheritedAttributes {c : Cursor} {a : String × String}
    (h : a ∈ inheritedAttributes c) : Xml.declaration? a = none := by
  obtain ⟨hplain, hother⟩ := isPlainName_of_mem (mem_contextNames_of_mem h)
  simp [Xml.declaration?, Xml.splitName_of_isPlainName a.1 hplain, hother]

/-! ## The standalone grammar -/

section Standalone

variable {document : Document} {root : Element} {c : Cursor} {text : String}

theorem mem_children_of_mem_definitionParts {root k : Cursor} (h : k ∈ definitionParts root) :
    k ∈ root.children := by
  rw [definitionParts] at h
  split at h
  · exact (List.mem_filter.mp (List.mem_filter.mp h).1).1
  · exact nomatch h

/-- The start of the new grammar, with the element pattern inside. -/
def startWritten (c : Cursor) : Written :=
  .mk (Xml.qualified c.element.tag.qualifier "start") [] "" [c.element.written]

/-- The new grammar around the start and the definitions. -/
def grammarWritten (c root : Cursor) : Written :=
  enclosed c (Xml.qualified c.element.tag.qualifier "grammar") (inheritedAttributes c)
    (startWritten c :: (definitionParts root).map (fun k => k.element.written))

/-- The text of a standalone grammar stands for the new root around the start and the
definitions. -/
theorem writes_standalone (hroot : document.root = some root) (hlegible : root.isLegible [] = true)
    (hserializes : document.Serializes) (hc : document.Holds c)
    (helement : isPart "element" c = true)
    (htext : standalone? (.ofRoot document { element := root }) c = some text) :
    Writes text (grammarWritten c { element := root }) := by
  have hcLegible := hc.legible hroot hlegible
  have hstart : document.Holds { element := root } := Document.holds_root hroot
  obtain ⟨element, hpattern, h⟩ := Option.bind_eq_some_iff.mp htext
  obtain ⟨texts, htexts, h⟩ := Option.bind_eq_some_iff.mp h
  have hname : ∀ name, Xml.isPlainName name = true →
      Xml.isName (Xml.qualified c.element.tag.qualifier name) = true := by
    intro name hplain
    have hwritten := hcLegible.tag.name
    rw [Element.writtenName_of_isIn helement] at hwritten
    exact Xml.isName_qualified hwritten hplain
  have hinside : Writes
      (openTag (Xml.qualified c.element.tag.qualifier "start") [] [] ++ String.join [element] ++
        closeTag (Xml.qualified c.element.tag.qualifier "start")) (startWritten c) :=
    writes_element (hname "start" (by decide)) Xml.AreAttributes.nil
      (.cons (hserializes c element hc hpattern) .nil)
  have hdefinitions := writes_of_mapM hserializes
    (fun k hk => hstart.child (mem_children_of_mem_definitionParts hk)) htexts
  have hwrites := writes_enclosed hcLegible (hname "grammar" (by decide))
    (areAttributes_inheritedAttributes c) (fun a ha => declaration?_inheritedAttributes ha)
    (.cons hinside hdefinitions)
  have hsame : text = openTag (Xml.qualified c.element.tag.qualifier "grammar") c.declarations
      (inheritedAttributes c) ++ String.join
        ((openTag (Xml.qualified c.element.tag.qualifier "start") [] [] ++ String.join [element] ++
          closeTag (Xml.qualified c.element.tag.qualifier "start")) :: texts) ++
      closeTag (Xml.qualified c.element.tag.qualifier "grammar") := by
    obtain rfl := Option.some.inj h
    rw [← String.toList_inj]
    simp [String.toList_join]
  rw [hsame]
  exact hwrites

/-- Elements that are what the parts are read as are copies of the parts, one each. -/
theorem forall₂_isPlaced {p : Cursor} {ks : List Cursor} (hks : ∀ k ∈ ks, k.Legible)
    (houter : p.inForce = carriedScope c)
    (haround : ∀ name ∈ contextNames, p.inherited? name = (c.inherited? name).map Xml.inAttribute)
    {es : List Element}
    (hes : es.map Element.unlined =
      ks.map (fun k => k.element.written.resolve (carriedScope c))) (i : Nat) :
    List.Forall₂ (IsPlaced c) ks (p.childrenFrom i es) := by
  induction ks generalizing es i with
  | nil =>
      obtain rfl := List.map_eq_nil_iff.mp hes
      exact .nil
  | cons k ks ih =>
      obtain ⟨e, es', rfl, he, hes'⟩ := List.map_eq_cons_iff.mp hes
      have hcopy : e.IsCopyOf k.element := ⟨carriedScope c, he⟩
      refine .cons ⟨hks k List.mem_cons_self, hcopy, houter, haround⟩ ?_
      exact ih (fun k' hk' => hks k' (List.mem_cons_of_mem _ hk')) hes' (i + 1)

/-- What the new root says, and what it supplies. -/
theorem grammar_of_unlined (hc : c.Legible) (helement : isPart "element" c = true) {start : Cursor}
    {top : Element} (htop : top.unlined = (grammarWritten c start).resolve []) :
    isPart "grammar" { element := top } = true ∧
      ({ element := top } : Cursor).inForce = carriedScope c ∧
      (∀ name ∈ contextNames, ({ element := top } : Cursor).inherited? name =
        (c.inherited? name).map Xml.inAttribute) ∧
      top.children.map Element.unlined =
        (startWritten c :: (definitionParts start).map (fun k => k.element.written)).map
          (Written.resolve (carriedScope c)) := by
  have hnone : ∀ a ∈ inheritedAttributes c, Xml.declaration? a = none :=
    fun a ha => declaration?_inheritedAttributes ha
  have hsplit : Xml.splitName (Xml.qualified c.element.tag.qualifier "grammar") =
      (c.element.tag.qualifier, "grammar") :=
    Xml.splitName_qualified_of_splitName (hc.splitName_of_isIn helement) (by decide)
  refine ⟨?_, ?_, fun name hname => ?_, ?_⟩
  · rw [isPart, ← Element.isIn_unlined, htop, grammarWritten,
      isIn_resolve_enclosed_iff hnone hsplit, hc.binding?_of_isIn helement]
    decide
  · have hdeclarations : top.tag.declarations = carriedScope c := by
      rw [← Element.declarations_unlined, htop, Written.declarations_resolve, grammarWritten,
        declarations_enclosed hnone]
    rw [Cursor.inForce, hdeclarations]
    exact List.append_nil _
  · obtain ⟨hplain, hother⟩ := isPlainName_of_mem hname
    have hattribute : top.attribute? name = (c.inherited? name).map Xml.inAttribute := by
      rw [← Element.attribute?_unlined, htop, grammarWritten,
        attribute?_resolve_enclosed hplain hother, lookup_inheritedAttributes c hname]
    rw [inherited?_eq, hattribute]
    exact Option.or_none
  · rw [← Element.children_unlined, htop, grammarWritten, children_resolve_enclosed hnone]

/-- What the start says, and that it supplies what is around it. -/
theorem start_of_unlined (hc : c.Legible) (helement : isPart "element" c = true) {s : Cursor}
    (hs : s.element.unlined = (startWritten c).resolve (carriedScope c)) :
    isPart "start" s = true ∧ s.inForce = s.outer ∧
      (∀ name ∈ contextNames,
        s.inherited? name = s.ancestors.findSome? (fun e => e.attribute? name)) ∧
      s.element.children.map Element.unlined =
        [c.element.written.resolve (carriedScope c)] := by
  have hsplit : Xml.splitName (startWritten c).name = (c.element.tag.qualifier, "start") :=
    Xml.splitName_qualified_of_splitName (hc.splitName_of_isIn helement) (by decide)
  have hnone : (startWritten c).declarations = [] := rfl
  refine ⟨?_, ?_, fun name hname => ?_, ?_⟩
  · rw [isPart, ← Element.isIn_unlined, hs, Written.isIn_resolve_iff hsplit, hnone,
      List.nil_append, lookup?_carriedScope, hc.binding?_of_isIn helement]
    decide
  · rw [Cursor.inForce, ← Element.declarations_unlined, hs, Written.declarations_resolve, hnone,
      List.nil_append]
  · obtain ⟨hplain, hother⟩ := isPlainName_of_mem hname
    have hattribute : s.element.attribute? name = none := by
      rw [← Element.attribute?_unlined, hs, Written.attribute?_resolve _ _ hplain hother]
      rfl
    rw [inherited?_eq, hattribute, Option.none_or]
  · rw [← Element.children_unlined, hs, Written.children_resolve, hnone, List.nil_append]
    rfl

/-- A standalone grammar is read as a grammar with a start, which holds a copy of the element
pattern and nothing else, and with copies of the definitions. -/
theorem exists_read_standalone (hroot : document.root = some root)
    (hlegible : root.isLegible [] = true) (hserializes : document.Serializes)
    (hc : document.Holds c) (helement : isPart "element" c = true)
    (htext : standalone? (.ofRoot document { element := root }) c = some text) :
    ∃ top start copy copies, Element.ofText? text = .ok top ∧
      isPart "grammar" { element := top } = true ∧
      ({ element := top } : Cursor).children = start :: copies ∧
      isPart "start" start = true ∧ start.children = [copy] ∧
      List.Forall₂ (IsPlaced c) (c :: definitionParts { element := root }) (copy :: copies) := by
  have hcLegible := hc.legible hroot hlegible
  have hrootHolds : document.Holds { element := root } := Document.holds_root hroot
  obtain ⟨top, hread, htop⟩ :=
    (writes_standalone hroot hlegible hserializes hc helement htext).ofText?
  obtain ⟨hgrammar, hforce, haround, hchildren⟩ := grammar_of_unlined hcLegible helement htop
  obtain ⟨s, ds, hcons, hs, hds⟩ := List.map_eq_cons_iff.mp hchildren
  obtain ⟨hstart, hforce', haround', hinside⟩ := start_of_unlined hcLegible helement
    (s := { element := s, ancestors := [top], path := [0] }) hs
  obtain ⟨e, hcopy, he⟩ := List.map_eq_singleton_iff.mp hinside
  refine ⟨top, { element := s, ancestors := [top], path := [0] },
    { element := e, ancestors := [s, top], path := [0, 0] },
    ({ element := top } : Cursor).childrenFrom 1 ds, hread, hgrammar, ?_, hstart, ?_, ?_⟩
  · rw [Cursor.children, hcons]
    rfl
  · rw [Cursor.children, hcopy]
    rfl
  · have hinside' : [e].map Element.unlined =
        [c].map (fun k => k.element.written.resolve (carriedScope c)) := by
      rw [List.map_singleton, List.map_singleton, he]
    have hall : List.Forall₂ (IsPlaced c) [c]
        (Cursor.childrenFrom { element := s, ancestors := [top], path := [0] } 0 [e]) := by
      refine forall₂_isPlaced (List.forall_mem_singleton.mpr hcLegible) (hforce'.trans hforce)
        (fun name hname => ?_) hinside' 0
      rw [haround' name hname, ← haround name hname]
      rfl
    have hdefinitions := forall₂_isPlaced
      (fun k hk => (hrootHolds.child (mem_children_of_mem_definitionParts hk)).legible hroot
        hlegible) hforce haround (hds.trans (List.map_map ..)) 1
    obtain ⟨hfirst, -⟩ := List.forall₂_cons.mp hall
    exact .cons hfirst hdefinitions

/-- A copy is in the context of the part that it was made from exactly if what the part takes from
around it is what is in force at the element pattern. -/
theorem standalone_keeps_context_iff (hroot : document.root = some root)
    (hlegible : root.isLegible [] = true) (hserializes : document.Serializes)
    (hc : document.Holds c) (helement : isPart "element" c = true)
    (htext : standalone? (.ofRoot document { element := root }) c = some text) :
    ∃ top start copy copies, Element.ofText? text = .ok top ∧
      isPart "grammar" { element := top } = true ∧
      ({ element := top } : Cursor).children = start :: copies ∧
      isPart "start" start = true ∧ start.children = [copy] ∧
      List.Forall₂
        (fun k k' => k'.element.IsCopyOf k.element ∧ (SameContext k k' ↔ Supplies c k))
        (c :: definitionParts { element := root }) (copy :: copies) := by
  obtain ⟨top, start, copy, copies, hread, hgrammar, hchildren, hstart, hinside, hall⟩ :=
    exists_read_standalone hroot hlegible hserializes hc helement htext
  refine ⟨top, start, copy, copies, hread, hgrammar, hchildren, hstart, hinside, ?_⟩
  exact hall.imp fun k k' hplaced => ⟨hplaced.copy, hplaced.sameContext_iff⟩

end Standalone

/-!
## Notes and counts

A pair holds a note and a count, and a note may refer to a count as well. The element of a note is
in a namespace of its own, that of a count is in none.
-/

namespace Notes

def library : String :=
  "http://www.w3.org/2001/XMLSchema-datatypes"

def note : Element :=
  part "element" [("name", "note"), ("ns", "urn:n")]
    [part "text" [] [], part "ref" [("name", "count")] []]

def count : Element :=
  part "element" [("name", "count")] [part "data" [("type", "int")] []]

def pair : Element :=
  part "element" [("name", "pair")]
    [part "ref" [("name", "note")] [], part "ref" [("name", "count")] []]

def noteDefinition : Element :=
  part "define" [("name", "note")] [note]

def countDefinition : Element :=
  part "define" [("name", "count")] [count]

def grammar : Element :=
  .mk
    { name := "grammar"
      uri := some patternUri
      attributes := [{ name := "datatypeLibrary", value := library }]
      declarations := [{ qualifier := none, uri := patternUri }] }
    "" [part "start" [] [pair], noteDefinition, countDefinition]

def root : Cursor where
  element := grammar

def document : Document :=
  .ofRoot grammar

def noteCursor : Cursor :=
  below (below root 1 noteDefinition) 0 note

def countCursor : Cursor :=
  below (below root 2 countDefinition) 0 count

/-- A standalone grammar of the document with these attributes and this start. -/
def standaloneOfPart (attributes start : String) : String :=
  "<grammar xmlns=\"" ++ patternUri ++ "\" datatypeLibrary=\"" ++ library ++ "\"" ++ attributes ++
    "><start>" ++ start ++ "</start>" ++ noteDefinition.markup ++ countDefinition.markup ++
    "</grammar>"

def noteText : String :=
  standaloneOfPart " ns=\"urn:n\"" note.markup

def countText : String :=
  standaloneOfPart "" count.markup

theorem legible_grammar : grammar.isLegible [] = true := by
  rfl

theorem serializes_document : document.Serializes :=
  Document.serializes_ofRoot legible_grammar rfl

theorem definitionParts_root :
    definitionParts root = [below root 1 noteDefinition, below root 2 countDefinition] := by
  rfl

/-- In the standalone grammar of a note, the definition of a count is in the namespace of the
note. -/
theorem standalone_moves_count :
    standalone? (.ofRoot document root) noteCursor = some noteText ∧
      effective (below root 2 countDefinition) "ns" = "" ∧
      ∃ top start first second, Element.ofText? noteText = .ok top ∧
        ({ element := top } : Cursor).children = [start, first, second] ∧
        second.element.IsCopyOf countDefinition ∧ effective second "ns" = "urn:n" := by
  have hroot : document.root = some grammar := rfl
  have hholds : document.Holds noteCursor := rfl
  have htext : standalone? (.ofRoot document root) noteCursor = some noteText := by
    decide +kernel
  obtain ⟨top, start, copy, copies, hread, -, hchildren, -, -, hall⟩ :=
    exists_read_standalone hroot legible_grammar serializes_document hholds rfl htext
  have hparts : definitionParts { element := grammar } =
      [below root 1 noteDefinition, below root 2 countDefinition] := definitionParts_root
  rw [hparts] at hall
  obtain ⟨-, hrest⟩ := List.forall₂_cons.mp hall
  obtain ⟨first, _, -, hlast, rfl⟩ := List.forall₂_cons_left_iff.mp hrest
  obtain ⟨second, _, hsecond, hnil, rfl⟩ := List.forall₂_cons_left_iff.mp hlast
  obtain rfl := List.forall₂_nil_left_iff.mp hnil
  have hvalue : effective second "ns" = "urn:n" := by
    rw [hsecond.effective_of_none (by decide) rfl]
    rfl
  exact ⟨htext, rfl, top, start, first, second, hread, hchildren, hsecond.copy,
    hvalue⟩

/-- Only the grammar declares a namespace, and attributes carry what is in force at the pattern. So
every part with the same values gets them back. -/
theorem supplies_of_inForce {k : Cursor} (hforce : k.inForce = countCursor.inForce)
    (hvalues : ∀ name ∈ contextNames, effective k name = effective countCursor name) :
    Supplies countCursor k where
  attributes := by
    intro name hname _
    have hcarried : ∀ name ∈ contextNames,
        Xml.inAttribute (effective countCursor name) = effective countCursor name := by
      decide
    rw [hcarried name hname, hvalues name hname]
  bindings := by
    intro q _
    have hcarried : countCursor.inForce.map Xml.Declaration.asRead = countCursor.inForce := by
      rfl
    rw [Cursor.binding?, Cursor.binding?, hforce, ← Xml.lookup?_asRead, hcarried]

/-- In the standalone grammar of a count everything stays in its context. -/
theorem standalone_keeps_context_count :
    standalone? (.ofRoot document root) countCursor = some countText ∧
      ∃ top start copy copies, Element.ofText? countText = .ok top ∧
        ({ element := top } : Cursor).children = start :: copies ∧ start.children = [copy] ∧
        List.Forall₂ SameContext
          [countCursor, below root 1 noteDefinition, below root 2 countDefinition]
          (copy :: copies) := by
  have hroot : document.root = some grammar := rfl
  have hholds : document.Holds countCursor := rfl
  have htext : standalone? (.ofRoot document root) countCursor = some countText := by
    rfl
  obtain ⟨top, start, copy, copies, hread, -, hchildren, -, hinside, hall⟩ :=
    standalone_keeps_context_iff hroot legible_grammar serializes_document hholds rfl htext
  have hparts : definitionParts { element := grammar } =
      [below root 1 noteDefinition, below root 2 countDefinition] := definitionParts_root
  have hcount : Supplies countCursor countCursor := supplies_of_inForce rfl fun _ _ => rfl
  have hfirst : Supplies countCursor (below root 1 noteDefinition) :=
    supplies_of_inForce rfl (by decide)
  have hsecond : Supplies countCursor (below root 2 countDefinition) :=
    supplies_of_inForce rfl (by decide)
  rw [hparts] at hall
  obtain ⟨hcopy, hrest⟩ := List.forall₂_cons.mp hall
  obtain ⟨first, _, hnote, hlast, rfl⟩ := List.forall₂_cons_left_iff.mp hrest
  obtain ⟨second, _, hcountDefinition, hnil, rfl⟩ := List.forall₂_cons_left_iff.mp hlast
  obtain rfl := List.forall₂_nil_left_iff.mp hnil
  refine ⟨htext, top, start, copy, [first, second], hread, hchildren, hinside, ?_⟩
  exact .cons (hcopy.2.mpr hcount)
    (.cons (hnote.2.mpr hfirst) (.cons (hcountDefinition.2.mpr hsecond) .nil))

end Notes

end VideoCatalog.Grammar.Pattern
