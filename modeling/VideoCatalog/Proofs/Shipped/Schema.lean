import VideoCatalog.Proofs.Record.Slots
import VideoCatalog.Proofs.Schema.Listing
import VideoCatalog.Proofs.Schema.Validity

/-!
# What the shipped schema says of an item

The shipped schema as a tree, without line numbers and without the white space between its tags. By
its rules a valid root is an item with one child for each slot of a record, in the order of the
schema (`meets_of_valid`).
-/

namespace VideoCatalog.Shipped.Schema

open Xml (Cursor Document Element)
open Grammar (below)
open Grammar.Schema

/-! ## The tree -/

/-- The declaration of an element by name and type. -/
def field (name type : String) (occurrences : List (String × String)) : Element :=
  component "element" ([("name", name), ("type", type)] ++ occurrences) []

def itemFields : List Element :=
  [field "url" "xs:string" [], field "source" "xs:string" [], field "id" "xs:long" [],
    field "unique_id" "xs:string" [], field "author" "xs:string" [], field "title" "xs:string" [],
    field "thumbnail" "xs:string" [], field "duration" "xs:int" [],
    field "medias" "MediaListType" [], field "type" "xs:string" [], field "error" "xs:boolean" [],
    field "time_end" "xs:int" []]

def listFields : List Element :=
  [field "media" "MediaType" [("minOccurs", "0"), ("maxOccurs", "unbounded")]]

def mediaFields : List Element :=
  [field "url" "xs:string" [], field "data_size" "xs:long" [], field "quality" "xs:string" [],
    field "extension" "xs:string" [], field "type" "xs:string" [],
    field "duration" "xs:int" [("minOccurs", "0")]]

def components : List Element :=
  [field "item" "ItemType" [], sequenceOf [("name", "ItemType")] itemFields,
    sequenceOf [("name", "MediaListType")] listFields,
    sequenceOf [("name", "MediaType")] mediaFields]

def root : Cursor where
  element := schemaOf components

def source : Source :=
  .ofRoot { root := some root.element } root

/-- A complex type of the schema, by its position. -/
def typeAt (i : Nat) (name : String) (fields : List Element) : Cursor :=
  below root i (sequenceOf [("name", name)] fields)

/-- The sequence of a complex type. -/
def sequenceAt (i : Nat) (name : String) (fields : List Element) : Cursor :=
  below (typeAt i name fields) 0 (component "sequence" [] fields)

/-! ## Fields -/

/-- The only declaration in force in the schema. -/
def declarations : List Xml.Declaration :=
  [{ qualifier := some "xs", uri := schemaUri }]

/-- The datatypes that the schema uses, as they are named behind its qualifier. -/
def builtIn : List String :=
  ["string", "long", "int", "boolean"]

/-- What is written with the qualifier of the schema stands for a type of XML Schema. -/
theorem refersTo_builtIn {p : Cursor} {type : String} (hscope : p.declarations = declarations)
    (htype : builtIn.contains type = true) : RefersTo p ("xs:" ++ type) schemaUri type := by
  have hwritten : ∀ type ∈ builtIn,
      Text.trim ("xs:" ++ type) = Xml.qualified (some "xs") type ∧ ':' ∉ type.toList := by
    decide
  obtain ⟨htrim, hplain⟩ := hwritten type (List.contains_iff_mem.mp htype)
  rw [RefersTo, htrim]
  refine @Xml.Expands.qualified p _ ⟨some "xs", schemaUri⟩ "xs" type ?_ hplain ?_ rfl
  · decide
  · rw [hscope]
    exact List.mem_cons_self

/-- The elements go with a component, down to a depth. -/
def Goes (depth : Nat) (p : Cursor) (es : List Element) : Prop :=
  (∀ e ∈ es, ValidTo source depth p e) ∧ Occurs p es.length

section Fields

variable {α β : Type} {depth i : Nat} {c : Cursor} {name type : String}
  {occurrences : List (String × String)} {stands : String → β → Prop} {piece : List Element}

/-- Names without a qualifier are in no namespace. -/
theorem defaultNamespace_field (hscope : c.declarations = declarations) :
    defaultNamespace (below c i (field name type occurrences)) = "" := by
  have hscope' : (below c i (field name type occurrences)).declarations = declarations := hscope
  rw [defaultNamespace, hscope']
  rfl

/-- An element that a field of a built-in type declares bears its name and has a text that stands
for a value. -/
theorem exists_stands (hscope : c.declarations = declarations)
    (href : (field name ("xs:" ++ type) occurrences).attribute? "ref" = none)
    (htrim : Text.trim name = name) (htype : builtIn.contains type = true)
    (hstands : ∀ text, Text.OfDatatype type text → ∃ v, stands text v) {e : Element}
    (h : ValidTo source (depth + 1) (below c i (field name ("xs:" ++ type) occurrences)) e) :
    e.name = name ∧ ∃ v, stands e.text v := by
  obtain ⟨hnamed, -, htext⟩ := h
  obtain ⟨hname, -⟩ := hnamed.of_declared href rfl
  rw [htrim] at hname
  have hdatatype : Text.OfDatatype type e.text :=
    htext ("xs:" ++ type) type rfl (refersTo_builtIn hscope htype)
  exact ⟨hname, hstands e.text hdatatype⟩

/-- An element of its name has the name that a field declares. -/
theorem named_field (href : (field name type occurrences).attribute? "ref" = none)
    (hform : (field name type occurrences).attribute? "form" = none)
    (htrim : Text.trim name = name) {e : Element} (hname : e.name = name) (huri : e.uri = none) :
    Named source (below c i (field name type occurrences)) e := by
  have hlocal : isQualified source (below c i (field name type occurrences)) = false := by
    have hunsaid : (below c i (field name type occurrences)).element.attribute? "form" = none :=
      hform
    rw [isQualified, hunsaid]
    rfl
  refine .declared href rfl ?_ ?_
  · rw [hname, htrim]
  · rw [huri, localNamespace, hlocal]
    rfl

/-- An element without children that has the name of a field and a text of its type is valid by it.
-/
theorem validTo_leaf (hscope : c.declarations = declarations)
    (htype : builtIn.contains type = true) {e : Element}
    (hnamed : Named source (below c i (field name ("xs:" ++ type) occurrences)) e)
    (hchildren : e.children = []) (htext : Text.OfDatatype type e.text) :
    ValidTo source depth (below c i (field name ("xs:" ++ type) occurrences)) e := by
  cases depth with
  | zero => trivial
  | succ depth =>
      have hrefers : RefersTo (below c i (field name ("xs:" ++ type) occurrences))
          ("xs:" ++ type) schemaUri type := refersTo_builtIn hscope htype
      refine ⟨hnamed, ⟨_, .builtIn rfl rfl hrefers, ?_⟩, ?_⟩
      · rw [hchildren]
        split
        · exact .any
        · exact .simple
      · intro written type' hwritten hrefers'
        obtain rfl : "xs:" ++ type = written := Option.some.inj hwritten
        have hlocal : Xml.localName (Text.trim ("xs:" ++ type)) = type :=
          Xml.Expands.localName_eq hrefers
        obtain rfl : type = type' := hlocal.symm.trans (Xml.Expands.localName_eq hrefers')
        exact htext

/-- A field that occurs once. -/
theorem holds_value {get : α → β} (hscope : c.declarations = declarations)
    (htrim : Text.trim name = name) (htype : builtIn.contains type = true)
    (hstands : ∀ text, Text.OfDatatype type text → ∃ v, stands text v)
    (h : Goes (depth + 1) (below c i (field name ("xs:" ++ type) [])) piece) :
    (Slot.value name stands get).Holds piece := by
  obtain ⟨hvalid, hoccurs⟩ := h
  obtain ⟨e, rfl⟩ := List.length_eq_one_iff.mp (hoccurs.eq_one rfl rfl)
  obtain ⟨hname, hvalue⟩ :=
    exists_stands hscope rfl htrim htype hstands (hvalid e List.mem_cons_self)
  exact Slot.holds_value hname hvalue

/-- A field that may be missing. -/
theorem holds_optional {get : α → Option β} (hscope : c.declarations = declarations)
    (htrim : Text.trim name = name) (htype : builtIn.contains type = true)
    (hstands : ∀ text, Text.OfDatatype type text → ∃ v, stands text v)
    (h : Goes (depth + 1) (below c i (field name ("xs:" ++ type) [("minOccurs", "0")])) piece) :
    (Slot.optional name stands get).Holds piece := by
  obtain ⟨hvalid, hoccurs⟩ := h
  cases piece with
  | nil => exact Slot.holds_optional_nil
  | cons e rest =>
      have hlength := hoccurs.greatestDefault rfl
      rw [List.length_cons] at hlength
      obtain rfl : rest = [] := List.eq_nil_of_length_eq_zero (by omega)
      obtain ⟨hname, hvalue⟩ :=
        exists_stands hscope rfl htrim htype hstands (hvalid e List.mem_cons_self)
      exact Slot.holds_optional hname hvalue

theorem holds_text {get : α → String} (hscope : c.declarations = declarations)
    (htrim : Text.trim name = name)
    (h : Goes (depth + 1) (below c i (field name "xs:string" [])) piece) :
    (Slot.value name standsForText get).Holds piece := by
  have hstands : ∀ text, Text.OfDatatype "string" text → ∃ v, standsForText text v := by
    intro text _
    exact ⟨text, rfl⟩
  exact holds_value hscope htrim rfl hstands h

theorem holds_long {get : α → Int64} (hscope : c.declarations = declarations)
    (htrim : Text.trim name = name)
    (h : Goes (depth + 1) (below c i (field name "xs:long" [])) piece) :
    (Slot.value name standsForLong get).Holds piece :=
  holds_value hscope htrim rfl (fun _ => Text.OfDatatype.exists_int64) h

theorem holds_int {get : α → Int32} (hscope : c.declarations = declarations)
    (htrim : Text.trim name = name)
    (h : Goes (depth + 1) (below c i (field name "xs:int" [])) piece) :
    (Slot.value name standsForInt get).Holds piece :=
  holds_value hscope htrim rfl (fun _ => Text.OfDatatype.exists_int32) h

end Fields

/-! ## Complex types -/

/-- The components of the fields of a complex type. -/
def fieldsAt (k : Nat) (name : String) (fields : List Element) : List Cursor :=
  (sequenceAt k name fields).children

/-- The schema has this complex type, by a plain name. -/
structure IsComplex (k : Nat) (type : String) (fields : List Element) : Prop where
  only : typesNamed source type = [typeAt k type fields]
  components : components? (sequenceAt k type fields) = some (fieldsAt k type fields)
  trim : Text.trim type = type
  plain : ':' ∉ type.toList

theorem isComplex_item : IsComplex 1 "ItemType" itemFields :=
  ⟨rfl, rfl, rfl, by decide⟩

theorem isComplex_list : IsComplex 2 "MediaListType" listFields :=
  ⟨rfl, rfl, rfl, by decide⟩

theorem isComplex_media : IsComplex 3 "MediaType" mediaFields :=
  ⟨rfl, rfl, rfl, by decide⟩

/-- An element that a field of a complex type declares bears its name and has one piece of children
for each field of the type. -/
theorem exists_pieces {depth i k : Nat} {c : Cursor} {name type : String}
    {occurrences : List (String × String)} {fields : List Element} {e : Element}
    (hscope : c.declarations = declarations) (htype : IsComplex k type fields)
    (hwritten : (field name type occurrences).attribute? "type" = some type)
    (href : (field name type occurrences).attribute? "ref" = none)
    (h : ValidTo source (depth + 1) (below c i (field name type occurrences)) e) :
    e.name = Text.trim name ∧
      e.uri.getD "" = localNamespace source (below c i (field name type occurrences)) ∧
      ∃ pieces, List.Forall₂ (Goes depth) (fieldsAt k type fields) pieces ∧
        e.children = pieces.flatten := by
  obtain ⟨hnamed, hcontent, -⟩ := h
  obtain ⟨hname, huri⟩ := hnamed.of_declared href rfl
  have hplain : ':' ∉ (Text.trim type).toList := by
    rw [htype.trim]
    exact htype.plain
  have honly : typesNamed source (Text.trim type) = [typeAt k type fields] := by
    rw [htype.trim]
    exact htype.only
  have hforeign : defaultNamespace (below c i (field name type occurrences)) ≠ schemaUri := by
    rw [defaultNamespace_field hscope]
    decide
  have hparts : (typeAt k type fields).children.filter (fun p => !saysNothing p) =
      [sequenceAt k type fields] := rfl
  exact ⟨hname, huri, hcontent.of_sequence rfl hwritten hplain hforeign honly rfl hparts rfl rfl rfl
    htype.components⟩

/-- An element with one piece of children for each field of a complex type is valid by what a field
of that type declares. -/
theorem validTo_block {depth i k : Nat} {c : Cursor} {name type : String}
    {occurrences : List (String × String)} {fields : List Element} {e : Element}
    {pieces : List (List Element)} (hscope : c.declarations = declarations)
    (htype : IsComplex k type fields)
    (hnamed : Named source (below c i (field name type occurrences)) e)
    (hpieces : ∀ depth, List.Forall₂ (Goes depth) (fieldsAt k type fields) pieces)
    (hchildren : e.children = pieces.flatten) :
    ValidTo source depth (below c i (field name type occurrences)) e := by
  cases depth with
  | zero => trivial
  | succ depth =>
      have hrefers : RefersTo (below c i (field name type occurrences)) type
          (targetNamespace source) type := by
        rw [RefersTo, htype.trim, defaultNamespace_field hscope]
        exact .plain htype.plain
      have hallows : Allows (ValidTo source depth) (.complex (typeAt k type fields))
          [pieces.flatten].flatten := by
        refine @Allows.composed _ _ (sequenceAt k type fields) [pieces.flatten] rfl ?_ ?_
        · exact occurs_once rfl rfl
        · exact List.forall_mem_singleton.mpr (.sequence rfl htype.components (hpieces depth))
      rw [List.flatten_singleton, ← hchildren] at hallows
      refine ⟨hnamed, ⟨_, .complex rfl rfl hrefers htype.only rfl, hallows⟩, ?_⟩
      -- The type is none of XML Schema itself.
      intro written type' hwritten hrefers'
      obtain rfl : type = written := Option.some.inj hwritten
      have hplain : ':' ∉ (Text.trim type).toList := htype.trim.symm ▸ htype.plain
      obtain ⟨huri', -⟩ := Xml.Expands.eq_of_not_mem hrefers' hplain
      rw [defaultNamespace_field hscope] at huri'
      exact absurd huri' (by decide)

/-! ## Variants -/

/-- The fields of a variant are its slots. -/
theorem holds_mediaFields (depth : Nat) :
    List.Forall₂ (fun p slot => ∀ piece, Goes (depth + 1) p piece → Slot.Holds slot piece)
      (fieldsAt 3 "MediaType" mediaFields) mediaSlots := by
  refine .cons ?url (.cons ?dataSize (.cons ?quality (.cons ?extension (.cons ?kind
    (.cons ?duration .nil)))))
  case dataSize =>
    intro piece h
    exact holds_long rfl rfl h
  case duration =>
    intro piece h
    exact holds_optional rfl rfl rfl (fun _ => Text.OfDatatype.exists_int32) h
  all_goals
    intro piece h
    exact holds_text rfl rfl h

theorem meets_media {c : Cursor} {depth i : Nat} {e : Element}
    (hscope : c.declarations = declarations)
    (h : ValidTo source (depth + 2)
      (below c i (field "media" "MediaType" [("minOccurs", "0"), ("maxOccurs", "unbounded")])) e) :
    e.name = "media" ∧ Meets mediaSlots e.children := by
  obtain ⟨hname, -, pieces, hpieces, hchildren⟩ := exists_pieces hscope isComplex_media rfl rfl h
  refine ⟨hname, ?_⟩
  refine meets_of_pieces (by decide) (holds_of_described (holds_mediaFields depth) hpieces) ?_
  rw [hchildren]

/-! ## Items -/

theorem holds_medias {c : Cursor} {depth i : Nat} {piece : List Element}
    (hscope : c.declarations = declarations)
    (h : Goes (depth + 3) (below c i (field "medias" "MediaListType" [])) piece) :
    (Slot.list "medias" "media" mediaSlots Record.medias).Holds piece := by
  obtain ⟨hvalid, hoccurs⟩ := h
  obtain ⟨e, rfl⟩ := List.length_eq_one_iff.mp (hoccurs.eq_one rfl rfl)
  obtain ⟨hname, -, pieces, hpieces, hchildren⟩ :=
    exists_pieces hscope isComplex_list rfl rfl (hvalid e List.mem_cons_self)
  cases hpieces with
  | @cons _ medias _ rest hmedias hrest =>
      cases hrest
      rw [List.flatten_singleton] at hchildren
      refine Slot.holds_list hname ?_
      intro media hmedia
      rw [hchildren] at hmedia
      exact meets_media rfl (hmedias.1 media hmedia)

/-- The fields of an item are its slots. -/
theorem holds_itemFields (depth : Nat) :
    List.Forall₂ (fun p slot => ∀ piece, Goes (depth + 3) p piece → Slot.Holds slot piece)
      (fieldsAt 1 "ItemType" itemFields) itemSlots := by
  refine .cons ?url (.cons ?source (.cons ?id (.cons ?uniqueId (.cons ?author (.cons ?title
    (.cons ?thumbnail (.cons ?duration (.cons ?medias (.cons ?kind (.cons ?error
    (.cons ?timeEnd .nil)))))))))))
  case id =>
    intro piece h
    exact holds_long rfl rfl h
  case duration | timeEnd =>
    intro piece h
    exact holds_int rfl rfl h
  case medias =>
    intro piece h
    exact holds_medias rfl h
  case error =>
    intro piece h
    exact holds_value rfl rfl rfl (fun _ => Text.OfDatatype.exists_truth) h
  all_goals
    intro piece h
    exact holds_text rfl rfl h

/-- By the rules of the schema a root is an item with the children of a record. -/
theorem meets_of_valid {e : Element} (h : ValidRoot source e) :
    e.name = "item" ∧ e.uri.getD "" = "" ∧ Meets itemSlots e.children := by
  obtain ⟨c, hc, helement, hvalid⟩ := h
  have hroots : source.root.children.filter (isComponent "element") =
      [below root 0 (field "item" "ItemType" [])] := rfl
  have hitem : c = below root 0 (field "item" "ItemType" []) := by
    rw [← List.mem_singleton, ← hroots]
    exact List.mem_filter.mpr ⟨hc, helement⟩
  subst hitem
  obtain ⟨hname, huri, pieces, hpieces, hchildren⟩ :=
    exists_pieces rfl isComplex_item rfl rfl (hvalid 4)
  refine ⟨hname, huri, ?_⟩
  refine meets_of_pieces (by decide) (holds_of_described (holds_itemFields 0) hpieces) ?_
  rw [hchildren]

end VideoCatalog.Shipped.Schema
