import VideoCatalog.Proofs.Grammar.Standalone
import VideoCatalog.Proofs.Schema.Listing

/-!
# Names in standalone schemas

A standalone schema declares one element of a schema document at its top level. `instanceName` is
the name of the elements that a declaration is for: a global one is in the target namespace, a local
one is there if it is qualified. The text of a standalone schema is read back, and the name that its
first declaration is for is compared with the name in the schema it comes from.

The two agree exactly if the prefix of the root still stands for XML Schema at the declaration, from
where the new root takes the prefixes, and if the declaration is global, or there is no target
namespace, or it does not say that it is unqualified (`standalone_keeps_name_iff`). The reader looks
at the default for local declarations only, and drops what a declaration says for itself.
-/

namespace VideoCatalog.Grammar.Schema

open Xml (Cursor Document Element Written Writes)

/-! ## Names of instances -/

/-- A value without white space at its ends, and with one blank in place of any other. -/
def collapse (s : String) : String :=
  let blanks := String.ofList (s.toList.map (fun c => if Xml.isGap c then ' ' else c))
  Text.joinWith " " ((Text.split ' ' blanks).filter (fun word => !word.isEmpty))

/-- An expanded name; the empty namespace stands for none. -/
structure ExpandedName where
  uri : String
  name : Option String
  deriving DecidableEq

/-- The schema with this root. -/
def Source.ofElement (root : Element) : Source :=
  .ofRoot (.ofRoot root) { element := root }

/-- The name of the elements that a declaration is for. -/
def instanceName (source : Source) (c : Cursor) : ExpandedName where
  uri := collapse (if isGlobal c then targetNamespace source else localNamespace source c)
  name := (c.element.attribute? "name").map collapse

/-- White space that an attribute does not carry does not count. -/
theorem collapse_inAttribute {s : String} (h : ∀ c ∈ s.toList, Xml.isXmlChar c = true) :
    collapse (Xml.inAttribute s) = collapse s := by
  have hsame : (Xml.inAttribute s).toList.map (fun c => if Xml.isGap c then ' ' else c) =
      s.toList.map (fun c => if Xml.isGap c then ' ' else c) := by
    rw [Xml.toList_inAttribute, List.map_map]
    refine List.map_congr_left fun c hc => ?_
    by_cases hspace : c = '\t' ∨ c = '\n'
    · rcases hspace with rfl | rfl <;> rfl
    · have hread : Xml.attributeChar c = c := by
        rw [Xml.attributeChar, if_neg hspace, Xml.cleanChar_of_isXmlChar (h c hc)]
      rw [Function.comp_apply, hread]
  rw [collapse, hsame, collapse]

/-! ## The declaration at the top -/

/-- What is written for a declaration at the top level. -/
def topWritten (c : Cursor) : Written :=
  if isGlobal c then c.element.written
  else
    .mk c.element.tag.writtenName (Xml.asRead (keptAttributes c)) ""
      (c.children.map (fun child => child.element.written))

section Top

variable {document : Document} {source : Source} {c : Cursor}

/-- Entries of other names do not matter for what is found. -/
theorem lookup_filter {keep : String × String → Bool} {name : String}
    (h : ∀ a, a.1 = name → keep a = true) (as : List (String × String)) :
    (as.filter keep).lookup name = as.lookup name := by
  induction as with
  | nil => rfl
  | cons a as ih =>
      by_cases ha : a.1 = name
      · rw [List.filter_cons_of_pos (h a ha), List.lookup_cons, List.lookup_cons, ih]
      · have hne : (name == a.1) = false := beq_eq_false_iff_ne.mpr (Ne.symm ha)
        rw [List.lookup_cons, hne, List.filter_cons]
        split
        · rw [List.lookup_cons, hne, ih]
        · exact ih

theorem keptAttributes_sublist (c : Cursor) :
    (keptAttributes c).Sublist c.element.tag.writtenAttributes :=
  List.filter_sublist.trans (List.sublist_append_right _ _)

theorem areAttributes_keptAttributes (hc : c.Legible) : Xml.AreAttributes (keptAttributes c) where
  names := fun a ha => hc.tag.attributes.names a ((keptAttributes_sublist c).subset ha)
  distinct := ((keptAttributes_sublist c).map Prod.fst).nodup hc.tag.attributes.distinct

theorem declaration?_qualifiedAttributes (hc : c.Legible) {a : String × String}
    (ha : a ∈ c.element.qualifiedAttributes) : Xml.declaration? a = none := by
  obtain ⟨b, hb, rfl⟩ := List.mem_map.mp ha
  exact hc.tag.declaration?_eq_none hb

/-- The text of a declaration at the top level stands for what is written there. -/
theorem writes_topText (hdocument : source.document = document) (hserializes : document.Serializes)
    (hc : c.Legible) (hholds : document.Holds c) (helement : isComponent "element" c = true)
    {text : String} (htext : topText? source c = some text) : Writes text (topWritten c) := by
  subst hdocument
  rw [topText?] at htext
  rw [topWritten]
  by_cases hglobal : isGlobal c = true
  · rw [if_pos hglobal] at htext ⊢
    exact hserializes c text hholds htext
  · rw [if_neg hglobal] at htext ⊢
    have hname := hc.tag.name
    have has : Xml.AreAttributes (([] : List Xml.Declaration).map Xml.Declaration.written ++
        keptAttributes c) := areAttributes_keptAttributes hc
    rw [localText?, ← Element.writtenName_of_isIn helement] at htext
    by_cases hempty : c.element.children.isEmpty = true
    · have hnone : c.children = [] := by
        rw [Cursor.children, List.isEmpty_iff.mp hempty]
        rfl
      rw [if_pos hempty] at htext
      obtain rfl := Option.some.inj htext
      rw [hnone]
      exact writes_emptyTag hname has
    · rw [if_neg hempty] at htext
      obtain ⟨inner, hinner, rfl⟩ := Option.map_eq_some_iff.mp htext
      obtain ⟨texts, htexts, rfl⟩ := Option.map_eq_some_iff.mp hinner
      have hall := writes_of_mapM hserializes (fun child hchild => hholds.child hchild) htexts
      exact writes_element hname has hall

/-- Read in what the new root carries of the declarations at `c`, the declaration is one again. -/
theorem isIn_resolve_topWritten (hc : c.Legible) (helement : isComponent "element" c = true) :
    ((topWritten c).resolve (carriedScope c)).isIn schemaUri "element" = true := by
  have hsplit := hc.splitName_of_isIn helement
  have hbound := hc.binding?_of_isIn helement
  have hcarried : (c.binding? c.element.tag.qualifier).map Xml.inAttribute = some schemaUri := by
    rw [hbound]
    decide
  rw [topWritten]
  by_cases hglobal : isGlobal c = true
  · have hdeclared : c.element.written.declarations = c.element.tag.declarations := by
      rw [Written.declarations, Element.attributes_written, hc.tag.declarations]
    have hname : Xml.splitName c.element.written.name = (c.element.tag.qualifier, "element") := by
      rw [Element.name_written, hsplit]
    rw [if_pos hglobal, Written.isIn_resolve_iff hname, hdeclared, ← hbound,
      lookup?_copy_eq_iff c c]
    exact fun _ => hcarried.trans hbound.symm
  · have hlocal : ∀ w : Written, w.name = c.element.tag.writtenName →
        w.attributes = Xml.asRead (keptAttributes c) →
          (w.resolve (carriedScope c)).isIn schemaUri "element" = true := by
      intro w hname hattributes
      have hnone : w.declarations = [] := by
        rw [Written.declarations, hattributes]
        refine Xml.filterMap_asRead [] fun a ha => ?_
        exact declaration?_qualifiedAttributes hc (List.mem_filter.mp ha).1
      rw [← hname] at hsplit
      rw [Written.isIn_resolve_iff hsplit, hnone, List.nil_append, lookup?_carriedScope]
      exact hcarried
    rw [if_neg hglobal]
    exact hlocal _ rfl rfl

/-- The characters of an attribute are such that a document can hold them. -/
theorem isXmlChar_of_attribute? (hc : c.Legible) {name value : String}
    (h : c.element.attribute? name = some value) :
    ∀ ch ∈ value.toList, Xml.isXmlChar ch = true := by
  obtain ⟨a, ha, rfl⟩ := Option.map_eq_some_iff.mp h
  have hmem : a.written ∈ c.element.tag.writtenAttributes :=
    List.mem_append_right _ (List.mem_map_of_mem (List.mem_of_find?_eq_some ha))
  exact hc.tag.values _ hmem

/-- The declaration keeps its name, white space aside. -/
theorem name_resolve_topWritten (hc : c.Legible) (outer : List Xml.Declaration) :
    (((topWritten c).resolve outer).attribute? "name").map collapse =
      (c.element.attribute? "name").map collapse := by
  have hplain : Xml.isPlainName "name" = true := by decide
  have hother : "name" ≠ "xmlns" := by decide
  rw [topWritten]
  by_cases hglobal : isGlobal c = true
  · rw [if_pos hglobal, Written.attribute?_resolve outer _ hplain hother,
      Element.attribute?_eq_lookup hc.element hplain hother]
  · have hkept : ∀ a : String × String, a.1 = "name" →
        (decide (a.1 ≠ "minOccurs") && decide (a.1 ≠ "maxOccurs") && decide (a.1 ≠ "form")) =
          true := by
      intro a ha
      rw [ha]
      decide
    have hlookup : (keptAttributes c).lookup "name" = c.element.attribute? "name" := by
      rw [Element.attribute?_eq_lookup hc.element hplain hother,
        Element.lookup_attributes_written _ hplain hother, keptAttributes, lookup_filter hkept]
    rw [if_neg hglobal, Written.attribute?_resolve outer _ hplain hother, Written.attributes,
      Xml.lookup_asRead, hlookup]
    cases hvalue : c.element.attribute? "name" with
    | none => rfl
    | some value => exact congrArg some (collapse_inAttribute (isXmlChar_of_attribute? hc hvalue))

end Top

/-! ## The standalone schema -/

section Standalone

variable {document : Document} {root : Element} {c : Cursor} {name text : String}

/-- What has gone before, where there is a standalone schema. -/
theorem standalone_cases {source : Source} (h : standalone? source c name = some text) :
    changesNamespace source c = false ∧
      ∃ top texts, topText? source c = some top ∧
        (otherComponents source c name).mapM (fun k => source.document.serialize k.path) =
          some texts ∧
        text = openTag (Xml.qualified source.root.element.tag.qualifier source.root.name)
            c.declarations source.root.element.qualifiedAttributes ++ String.join (top :: texts) ++
          closeTag (Xml.qualified source.root.element.tag.qualifier source.root.name) := by
  rw [standalone?] at h
  cases hchanges : changesNamespace source c with
  | true => simp [hchanges] at h
  | false =>
      simp only [hchanges, Bool.false_eq_true, if_false] at h
      obtain ⟨top, htop, h⟩ := Option.bind_eq_some_iff.mp h
      obtain ⟨others, hothers, h⟩ := Option.bind_eq_some_iff.mp h
      obtain ⟨texts, htexts, rfl⟩ := Option.map_eq_some_iff.mp hothers
      refine ⟨rfl, top, texts, htop, htexts, ?_⟩
      obtain rfl := Option.some.inj h
      rw [← String.toList_inj]
      simp [String.toList_join]

/-- The text of a standalone schema stands for the root around the declaration and the rest. -/
theorem exists_writes_standalone (hroot : document.root = some root)
    (hlegible : root.isLegible [] = true) (hserializes : document.Serializes)
    (hc : document.Holds c) (helement : isComponent "element" c = true)
    (htext : standalone? (.ofRoot document { element := root }) c name = some text) :
    ∃ others, Writes text
      (enclosed c root.tag.writtenName root.qualifiedAttributes (topWritten c :: others)) := by
  have hstart : document.Holds { element := root } := Document.holds_root hroot
  have hrootLegible := hstart.legible hroot hlegible
  have hcLegible := hc.legible hroot hlegible
  obtain ⟨-, top, texts, htop, htexts, rfl⟩ := standalone_cases htext
  have hfirst := writes_topText rfl hserializes hcLegible hc helement htop
  have hothers := writes_of_mapM hserializes
    (fun k hk => hstart.child (List.mem_filter.mp hk).1) htexts
  refine ⟨_, writes_enclosed hcLegible hrootLegible.tag.name ?_ ?_ (.cons hfirst hothers)⟩
  · have hsublist : root.qualifiedAttributes.Sublist root.tag.writtenAttributes :=
      List.sublist_append_right _ _
    exact ⟨fun a ha => hrootLegible.tag.attributes.names a (hsublist.subset ha),
      (hsublist.map Prod.fst).nodup hrootLegible.tag.attributes.distinct⟩
  · exact fun a ha => declaration?_qualifiedAttributes hrootLegible ha

/-- Given that the schema puts local declarations into the target namespace, if it has one, this is
what a declaration must say for its elements to be there. -/
theorem collapse_namespace_eq_iff {source : Source} (h : changesNamespace source c = false) :
    collapse (targetNamespace source) =
        collapse (if isGlobal c then targetNamespace source else localNamespace source c) ↔
      isGlobal c = true ∨ collapse (targetNamespace source) = "" ∨
        ∀ form, c.element.attribute? "form" = some form → Text.trim form = "qualified" := by
  by_cases hglobal : isGlobal c = true
  · rw [if_pos hglobal]
    exact ⟨fun _ => .inl hglobal, fun _ => rfl⟩
  rw [if_neg hglobal, or_iff_right hglobal]
  by_cases htarget : source.root.element.attribute? "targetNamespace" = none
  · have hnone : targetNamespace source = "" := by
      rw [targetNamespace, htarget]
      rfl
    have hempty : collapse "" = "" := by decide
    have hlocal : localNamespace source c = "" := by
      rw [localNamespace, hnone, ite_self]
    rw [hlocal, hnone]
    exact ⟨fun _ => .inl hempty, fun _ => rfl⟩
  · -- The schema qualifies local declarations, so only what this one says for itself counts.
    have hdefault : source.root.element.attribute? "elementFormDefault" = some "qualified" := by
      simpa [changesNamespace, hglobal, Option.isSome_iff_ne_none.mpr htarget] using h
    have hqualified : isQualified source c = true ↔
        ∀ form, c.element.attribute? "form" = some form → Text.trim form = "qualified" := by
      rw [isQualified, hdefault]
      cases c.element.attribute? "form" with
      | none => exact ⟨fun _ _ hform => (nomatch hform), fun _ => by decide⟩
      | some form => simp
    rw [localNamespace]
    by_cases hform : isQualified source c = true
    · rw [if_pos hform]
      exact ⟨fun _ => .inr (hqualified.mp hform), fun _ => rfl⟩
    · have hempty : collapse "" = "" := by decide
      rw [if_neg hform, hempty, ← hqualified, or_iff_left hform]

/-- At the top of the standalone schema the declaration is for elements of its name in the target
namespace of the schema it comes from. -/
theorem instanceName_copy (hroot : document.root = some root)
    (hlegible : root.isLegible [] = true) (hc : document.Holds c) {others : List Written}
    {top : Element} {copy : Cursor}
    (htop : top.unlined = (enclosed c root.tag.writtenName root.qualifiedAttributes
      (topWritten c :: others)).resolve [])
    (hcopy : copy.element.unlined = (topWritten c).resolve (carriedScope c))
    (hpath : copy.path = [0]) :
    instanceName (.ofElement top) copy =
      { uri := collapse (targetNamespace (.ofRoot document { element := root }))
        name := (c.element.attribute? "name").map collapse } := by
  have hrootLegible := (Document.holds_root hroot).legible hroot hlegible
  have hplain : Xml.isPlainName "targetNamespace" = true := by decide
  have hother : "targetNamespace" ≠ "xmlns" := by decide
  have hglobal : isGlobal copy = true := by rw [isGlobal, hpath]; rfl
  have htarget : top.attribute? "targetNamespace" =
      (root.attribute? "targetNamespace").map Xml.inAttribute := by
    rw [← Element.attribute?_unlined, htop, attribute?_resolve_enclosed hplain hother,
      Element.attribute?_eq_lookup hlegible hplain hother,
      Element.lookup_attributes_written _ hplain hother]
  have hname : (copy.element.attribute? "name").map collapse =
      (c.element.attribute? "name").map collapse := by
    rw [← Element.attribute?_unlined, hcopy,
      name_resolve_topWritten (hc.legible hroot hlegible) (carriedScope c)]
  rw [instanceName, if_pos hglobal, hname, ExpandedName.mk.injEq]
  refine ⟨?_, rfl⟩
  rw [targetNamespace, targetNamespace, Source.ofElement, Source.ofRoot, Source.ofRoot, htarget]
  cases hvalue : root.attribute? "targetNamespace" with
  | none => rfl
  | some value => exact collapse_inAttribute (isXmlChar_of_attribute? hrootLegible hvalue)

/-- A standalone schema is read as a root with the declaration for its first child. That is a schema
if the prefix of the root is not bound to something else at the declaration, and it puts the
declaration into the target namespace. -/
theorem exists_read_standalone (hroot : document.root = some root)
    (hlegible : root.isLegible [] = true) (hserializes : document.Serializes)
    (hschema : isComponent "schema" { element := root } = true) (hc : document.Holds c)
    (helement : isComponent "element" c = true)
    (htext : standalone? (.ofRoot document { element := root }) c name = some text) :
    ∃ top copy, Element.ofText? text = .ok top ∧
      ({ element := top } : Cursor).children.head? = some copy ∧
      isComponent "element" copy = true ∧
      (isComponent "schema" { element := top } = true ↔
        c.binding? root.tag.qualifier = some schemaUri) ∧
      instanceName (.ofElement top) copy =
        { uri := collapse (targetNamespace (.ofRoot document { element := root }))
          name := (c.element.attribute? "name").map collapse } := by
  have hrootLegible := (Document.holds_root hroot).legible hroot hlegible
  have hcLegible := hc.legible hroot hlegible
  obtain ⟨others, hwrites⟩ :=
    exists_writes_standalone hroot hlegible hserializes hc helement htext
  obtain ⟨top, hread, htop⟩ := hwrites.ofText?
  have hnone : ∀ a ∈ root.qualifiedAttributes, Xml.declaration? a = none :=
    fun a ha => declaration?_qualifiedAttributes hrootLegible ha
  -- The first child of the new root is the declaration, read in the scope of the root.
  have hchildren : top.children.map Element.unlined =
      (topWritten c :: others).map (Written.resolve (carriedScope c)) := by
    rw [← Element.children_unlined, htop, children_resolve_enclosed hnone]
  obtain ⟨e, es, hcons, hfirst, -⟩ := List.map_eq_cons_iff.mp hchildren
  have hhead : ({ element := top } : Cursor).children.head? =
      some { element := e, ancestors := [top], path := [0] } := by
    rw [Cursor.children, hcons]
    rfl
  refine ⟨top, _, hread, hhead, ?_, ?_, instanceName_copy hroot hlegible hc htop hfirst rfl⟩
  · rw [isComponent, ← Element.isIn_unlined, hfirst]
    exact isIn_resolve_topWritten hcLegible helement
  · have hschemaUri : Xml.isUnmistakable schemaUri = true := by decide
    rw [isComponent, ← Element.isIn_unlined, htop,
      isIn_resolve_enclosed_iff hnone (hrootLegible.splitName_of_isIn hschema)]
    cases c.binding? root.tag.qualifier with
    | none => simp
    | some uri => simp [Xml.inAttribute_eq_iff hschemaUri]

/-- That is a schema, and one in which the declaration is for elements of the name that it has in
the schema it comes from, exactly if the prefix of the root is not bound to something else at the
declaration, and the declaration is not a local one that takes itself out of a target namespace. -/
theorem standalone_keeps_name_iff (hroot : document.root = some root)
    (hlegible : root.isLegible [] = true) (hserializes : document.Serializes)
    (hschema : isComponent "schema" { element := root } = true) (hc : document.Holds c)
    (helement : isComponent "element" c = true)
    (htext : standalone? (.ofRoot document { element := root }) c name = some text) :
    ∃ top copy, Element.ofText? text = .ok top ∧
      ({ element := top } : Cursor).children.head? = some copy ∧
      isComponent "element" copy = true ∧
      ((isComponent "schema" { element := top } = true ∧
          instanceName (.ofElement top) copy =
            instanceName (.ofRoot document { element := root }) c) ↔
        (c.binding? root.tag.qualifier = some schemaUri ∧
          (isGlobal c = true ∨
            collapse (targetNamespace (.ofRoot document { element := root })) = "" ∨
            ∀ form, c.element.attribute? "form" = some form → Text.trim form = "qualified"))) := by
  obtain ⟨top, copy, hread, hhead, hcopy, hisSchema, hname⟩ :=
    exists_read_standalone hroot hlegible hserializes hschema hc helement htext
  obtain ⟨hkeeps, -⟩ := standalone_cases htext
  refine ⟨top, copy, hread, hhead, hcopy, ?_⟩
  rw [hisSchema, hname, instanceName, ExpandedName.mk.injEq, and_iff_left rfl,
    collapse_namespace_eq_iff hkeeps]

end Standalone

/-!
## A pair of qualified and unqualified members

Local declarations are qualified unless they say otherwise. The first member of a pair does, the
second does not.
-/

namespace Unqualified

def first : Element :=
  component "element" [("name", "first"), ("type", "xs:int"), ("form", "unqualified")] []

def second : Element :=
  component "element" [("name", "second"), ("type", "xs:int")] []

def members : Element :=
  component "sequence" [] [first, second]

def pairType : Element :=
  component "complexType" [] [members]

def pair : Element :=
  component "element" [("name", "pair")] [pairType]

def schema : Element :=
  .mk
    { name := "schema"
      uri := some schemaUri
      qualifier := some "xs"
      attributes :=
        [{ name := "targetNamespace", value := "urn:t" },
          { name := "elementFormDefault", value := "qualified" }]
      declarations := [{ qualifier := some "xs", uri := schemaUri }] }
    "" [pair]

def root : Cursor where
  element := schema

def document : Document :=
  .ofRoot schema

/-- The sequence of the members. -/
def sequence : Cursor :=
  below (below (below root 0 pair) 0 pairType) 0 members

def firstCursor : Cursor :=
  below sequence 0 first

def secondCursor : Cursor :=
  below sequence 1 second

/-- A standalone schema of the document with this declaration at the top. -/
def standaloneOfMember (declaration : String) : String :=
  "<xs:schema xmlns:xs=\"" ++ schemaUri ++
    "\" targetNamespace=\"urn:t\" elementFormDefault=\"qualified\">" ++ declaration ++
    pair.markup ++ "</xs:schema>"

def firstText : String :=
  standaloneOfMember "<xs:element name=\"first\" type=\"xs:int\"/>"

def secondText : String :=
  standaloneOfMember "<xs:element name=\"second\" type=\"xs:int\"/>"

theorem legible_schema : schema.isLegible [] = true := by
  rfl

theorem serializes_document : document.Serializes :=
  Document.serializes_ofRoot legible_schema rfl

/-- The elements of the first member are in no namespace, but its standalone schema declares
elements in the target namespace. -/
theorem standalone_qualifies_first :
    standalone? (.ofRoot document root) firstCursor "first" = some firstText ∧
      instanceName (.ofRoot document root) firstCursor = { uri := "", name := some "first" } ∧
      ∃ top copy, Element.ofText? firstText = .ok top ∧
        ({ element := top } : Cursor).children.head? = some copy ∧
        instanceName (.ofElement top) copy = { uri := "urn:t", name := some "first" } := by
  have hroot : document.root = some schema := rfl
  have hholds : document.Holds firstCursor := rfl
  have htext : standalone? (.ofRoot document root) firstCursor "first" = some firstText := by
    rfl
  obtain ⟨top, copy, hread, hhead, -, -, hname⟩ :=
    exists_read_standalone hroot legible_schema serializes_document rfl hholds rfl htext
  exact ⟨htext, rfl, top, copy, hread, hhead, hname.trans rfl⟩

/-- The second member keeps its name. -/
theorem standalone_keeps_name_second :
    standalone? (.ofRoot document root) secondCursor "second" = some secondText ∧
      ∃ top copy, Element.ofText? secondText = .ok top ∧
        ({ element := top } : Cursor).children.head? = some copy ∧
        isComponent "schema" { element := top } = true ∧
        instanceName (.ofElement top) copy = { uri := "urn:t", name := some "second" } := by
  have hroot : document.root = some schema := rfl
  have hholds : document.Holds secondCursor := rfl
  have htext : standalone? (.ofRoot document root) secondCursor "second" = some secondText := by
    rfl
  obtain ⟨top, copy, hread, hhead, -, hiff⟩ :=
    standalone_keeps_name_iff hroot legible_schema serializes_document rfl hholds rfl htext
  obtain ⟨hschema, hname⟩ := hiff.mpr ⟨rfl, .inr (.inr fun form h => by cases h)⟩
  exact ⟨htext, top, copy, hread, hhead, hschema, hname.trans rfl⟩

end Unqualified

end VideoCatalog.Grammar.Schema
