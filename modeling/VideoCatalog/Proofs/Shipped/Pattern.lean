import VideoCatalog.Proofs.Pattern.Listing
import VideoCatalog.Proofs.Pattern.Validity
import VideoCatalog.Proofs.Record.Slots

/-!
# What the shipped pattern grammar says of an item

The shipped pattern grammar as a tree, without line numbers and without the white space between its
tags. An element that conforms to it is an item with one child for each slot of a record, in any
order (`meets_of_conforming`).
-/

namespace VideoCatalog.Shipped.Pattern

open Xml (Cursor Document Element)
open Grammar (below)
open Grammar.Pattern

/-! ## The tree -/

def text : Element :=
  part "text" [] []

/-- A value of a datatype. -/
def data (type : String) : Element :=
  part "data" [("type", type)] []

/-- A token of small letters and digits. -/
def token : Element :=
  part "data" [("type", "token")]
    [.mk
      { name := "param"
        uri := some patternUri
        attributes := [{ name := "name", value := "pattern" }] }
      "[a-z0-9]+" []]

/-- An element pattern by name. -/
def field (name : String) (content : Element) : Element :=
  part "element" [("name", name)] [content]

def reference (name : String) : Element :=
  part "ref" [("name", name)] []

def itemFields : List Element :=
  [field "url" text, field "source" text, field "id" (data "long"), field "unique_id" text,
    field "author" text, field "title" text, field "thumbnail" text, field "duration" (data "int"),
    field "medias" (part "zeroOrMore" [] [reference "media"]), field "type" text,
    field "error" (data "boolean"), field "time_end" (data "int")]

def mediaFields : List Element :=
  [field "url" text, field "data_size" (data "long"), field "quality" text,
    field "extension" token, field "type" text,
    part "optional" [] [field "duration" (data "int")]]

def start : Element :=
  part "start" [] [reference "item"]

/-- The definition of an element pattern with this content, by its name. -/
def definition (name : String) (content : List Element) : Element :=
  part "define" [("name", name)] [part "element" [("name", name)] content]

def itemDefinition : Element :=
  definition "item" [part "interleave" [] itemFields]

def mediaDefinition : Element :=
  definition "media" mediaFields

def root : Cursor where
  element :=
    .mk
      { name := "grammar"
        uri := some patternUri
        attributes := [{ name := "datatypeLibrary", value := datatypesUri }]
        declarations := [{ qualifier := none, uri := patternUri }] }
      "" [start, itemDefinition, mediaDefinition]

def source : Source :=
  .ofRoot { root := some root.element } root

/-- The element pattern of a definition, by its position. -/
def defined (k : Nat) (name : String) (content : List Element) : Cursor :=
  below (below root k (definition name content)) 0 (part "element" [("name", name)] content)

def item : Cursor :=
  defined 1 "item" [part "interleave" [] itemFields]

def media : Cursor :=
  defined 2 "media" mediaFields

/-! ## Fields -/

/-- Whether what is written stands for itself, without blanks around it and a qualifier. -/
def isPlain (name : String) : Bool :=
  Text.trim name == name && !name.toList.contains ':'

theorem isPlain_iff {name : String} :
    isPlain name = true ↔ Text.trim name = name ∧ ':' ∉ name.toList := by
  simp [isPlain]

/-- The elements go with a pattern. -/
abbrev Goes (p : Cursor) (es : List Element) : Prop :=
  Matches source (Conforms source) p es

section Fields

variable {α β : Type} {i : Nat} {c : Cursor} {name type : String} {content : Element}
  {stands : String → β → Prop} {e : Element} {piece : List Element}

theorem ofDatatype_of_fits (hlibrary : c.inherited? "datatypeLibrary" = some datatypesUri)
    (htrim : Text.trim type = type) {t : String}
    (h : TextFits (parts (below c i (field name (data type)))) t) : Text.OfDatatype type t := by
  have hdatatype : Text.OfDatatype (Text.trim type) t :=
    h (below (below c i (field name (data type))) 0 (data type)) List.mem_cons_self rfl hlibrary
      type rfl
  rwa [htrim] at hdatatype

/-- The element of a field bears its name, and its text fits. -/
theorem exists_field (hplain : isPlain name = true)
    (h : Goes (below c i (field name content)) piece) :
    ∃ e, piece = [e] ∧ e.name = name ∧
      InGroup source (Conforms source) (parts (below c i (field name content))) e.children ∧
      TextFits (parts (below c i (field name content))) e.text := by
  obtain ⟨htrim, hplain⟩ := isPlain_iff.mp hplain
  obtain ⟨e, rfl, hconforms⟩ := h.of_element rfl
  have hplain' : ':' ∉ (Text.trim name).toList := by
    rw [htrim]
    exact hplain
  obtain ⟨hname, -, hgroup, htext⟩ := hconforms.of_written rfl hplain'
  rw [htrim] at hname
  exact ⟨e, rfl, hname, hgroup, htext⟩

/-- An element that bears the name of a field conforms to it if its content does. -/
theorem conforms_field (hspace : c.inherited? "ns" = none)
    (hplain : isPlain name = true) (hname : e.name = name) (huri : e.uri = none)
    (hcontent : Goes (below (below c i (field name content)) 0 content) e.children)
    (hparts : parts (below c i (field name content)) =
      [below (below c i (field name content)) 0 content])
    (htext : TextFits (parts (below c i (field name content))) e.text) :
    Conforms source (below c i (field name content)) e := by
  have hspace' : namespaceAt (below c i (field name content)) = e.uri.getD "" := by
    have hinherited : (below c i (field name content)).inherited? "ns" = none := hspace
    rw [namespaceAt, hinherited, huri]
  obtain ⟨htrim, hplain⟩ := isPlain_iff.mp hplain
  have hbears : Bears (below c i (field name content)) name e := by
    refine .of_plain ?_ ?_ hspace'
    · rw [htrim, hname]
    · rw [hname]
      exact hplain
  refine .mk (.written rfl hbears) (.written rfl) ?_ htext
  have hgroup := InGroup.of_pieces (.cons hcontent .nil)
  rw [List.flatten_singleton] at hgroup
  rw [hparts]
  exact hgroup

theorem conforms_text (hspace : c.inherited? "ns" = none)
    (hplain : isPlain name = true) (hname : e.name = name) (huri : e.uri = none)
    (hchildren : e.children = []) : Conforms source (below c i (field name text)) e := by
  refine conforms_field hspace hplain hname huri ?_ rfl ?_
  · rw [hchildren]
    exact .text rfl
  · intro p hp hdata
    obtain rfl := List.mem_singleton.mp hp
    have hnames : "text" = "data" := hdata
    exact absurd hnames (by decide)

theorem conforms_data (hspace : c.inherited? "ns" = none)
    (hplain : isPlain name = true) (htype : Text.trim type = type)
    (hname : e.name = name) (huri : e.uri = none) (hchildren : e.children = [])
    (htext : Text.OfDatatype type e.text) :
    Conforms source (below c i (field name (data type))) e := by
  refine conforms_field hspace hplain hname huri ?_ rfl ?_
  · rw [hchildren]
    exact .data rfl
  · intro p hp _ _ type' hwritten
    obtain rfl := List.mem_singleton.mp hp
    obtain rfl : type = type' := Option.some.inj hwritten
    rw [htype]
    exact htext

/-- A field that occurs once. -/
theorem holds_value {get : α → β} (hplain : isPlain name = true)
    (hstands : ∀ t, TextFits (parts (below c i (field name content))) t → ∃ v, stands t v)
    (h : Goes (below c i (field name content)) piece) :
    (Slot.value name stands get).Holds piece := by
  obtain ⟨e, rfl, hname, -, htext⟩ := exists_field hplain h
  exact Slot.holds_value hname (hstands e.text htext)

/-- A field that may be missing. -/
theorem holds_optional {get : α → Option β} (hplain : isPlain name = true)
    (hstands : ∀ t, TextFits
      (parts (below (below c i (part "optional" [] [field name content])) 0 (field name content)))
      t → ∃ v, stands t v)
    (h : Goes (below c i (part "optional" [] [field name content])) piece) :
    (Slot.optional name stands get).Holds piece := by
  have hparts : parts (below c i (part "optional" [] [field name content])) =
      [below (below c i (part "optional" [] [field name content])) 0 (field name content)] := rfl
  obtain ⟨rounds, rfl, hrounds, -, hmost⟩ := h.of_operator rfl
  have hlength : rounds.length ≤ 1 := hmost 1 rfl
  cases rounds with
  | nil => exact Slot.holds_optional_nil
  | cons round rest =>
      obtain rfl : rest = [] := by
        rw [List.length_cons] at hlength
        exact List.eq_nil_of_length_eq_zero (by omega)
      have hround := hrounds round List.mem_cons_self
      rw [hparts] at hround
      obtain ⟨e, rfl, hname, -, htext⟩ := exists_field hplain hround.of_single
      exact Slot.holds_optional hname (hstands e.text htext)

theorem holds_text {get : α → String} (hplain : isPlain name = true)
    (h : Goes (below c i (field name content)) piece) :
    (Slot.value name standsForText get).Holds piece := by
  refine holds_value hplain ?_ h
  intro t _
  exact ⟨t, rfl⟩

theorem holds_long {get : α → Int64} (hlibrary : c.inherited? "datatypeLibrary" = some datatypesUri)
    (hplain : isPlain name = true) (h : Goes (below c i (field name (data "long"))) piece) :
    (Slot.value name standsForLong get).Holds piece := by
  refine holds_value hplain ?_ h
  intro t ht
  exact (ofDatatype_of_fits hlibrary rfl ht).exists_int64

theorem holds_int {get : α → Int32} (hlibrary : c.inherited? "datatypeLibrary" = some datatypesUri)
    (hplain : isPlain name = true) (h : Goes (below c i (field name (data "int"))) piece) :
    (Slot.value name standsForInt get).Holds piece := by
  refine holds_value hplain ?_ h
  intro t ht
  exact (ofDatatype_of_fits hlibrary rfl ht).exists_int32

end Fields

/-! ## Definitions -/

/-- What a reference matches is one element, which conforms to the definition. -/
theorem exists_of_reference {c : Cursor} {i k : Nat} {name : String} {content : List Element}
    {es : List Element}
    (honly : definitionsOf source name = [below root k (definition name content)])
    (h : Goes (below c i (reference name)) es) :
    ∃ e, es = [e] ∧ Conforms source (defined k name content) e := by
  have hgroup := h.of_ref rfl rfl honly
  have hparts : parts (below root k (definition name content)) = [defined k name content] := rfl
  rw [hparts] at hgroup
  exact hgroup.of_single.of_element rfl

/-- An element that conforms to a definition is what a reference to it matches. -/
theorem reference_of_conforms {c : Cursor} {i k : Nat} {name : String} {content : List Element}
    {e : Element} (honly : definitionsOf source name = [below root k (definition name content)])
    (h : Conforms source (defined k name content) e) : Goes (below c i (reference name)) [e] := by
  have hcombined : CombinedBy "choice" (definitionsOf source name) := by
    rw [honly]
    refine ⟨?_, Nat.le_refl 1⟩
    intro d hd m hm
    obtain rfl := List.mem_singleton.mp hd
    cases hm
  have hmem : below root k (definition name content) ∈ definitionsOf source name := by
    rw [honly]
    exact List.mem_singleton_self _
  refine .chosen rfl rfl hcombined hmem ?_
  exact .cons (.element rfl h) .nil

/-! ## Variants -/

/-- The fields of a variant are its slots. -/
theorem holds_mediaFields :
    List.Forall₂ (fun p slot => ∀ piece, Goes p piece → Slot.Holds slot piece) (parts media)
      mediaSlots := by
  refine .cons ?url (.cons ?dataSize (.cons ?quality (.cons ?extension (.cons ?kind
    (.cons ?duration .nil)))))
  case dataSize =>
    intro piece h
    exact holds_long rfl rfl h
  case duration =>
    intro piece h
    refine holds_optional rfl ?_ h
    intro t ht
    exact (ofDatatype_of_fits rfl rfl ht).exists_int32
  all_goals
    intro piece h
    exact holds_text rfl h

theorem meets_media {e : Element} (h : Conforms source media e) :
    e.name = "media" ∧ Meets mediaSlots e.children := by
  obtain ⟨hname, -, hgroup, -⟩ := h.of_written rfl (by decide)
  obtain ⟨pieces, hpieces, hchildren⟩ := hgroup.pieces
  refine ⟨hname, meets_of_pieces (by decide) (holds_of_described holds_mediaFields hpieces) ?_⟩
  rw [hchildren]

/-! ## Items -/

theorem holds_medias {c : Cursor} {i : Nat} {piece : List Element}
    (h : Goes (below c i (field "medias" (part "zeroOrMore" [] [reference "media"]))) piece) :
    (Slot.list "medias" "media" mediaSlots Record.medias).Holds piece := by
  obtain ⟨e, rfl, hname, hgroup, -⟩ := exists_field rfl h
  obtain ⟨rounds, hchildren, hrounds, -, -⟩ := hgroup.of_single.of_operator rfl
  refine Slot.holds_list hname ?_
  intro child hchild
  rw [hchildren] at hchild
  obtain ⟨round, hround, hmem⟩ := List.mem_flatten.mp hchild
  obtain ⟨e', rfl, hconforms⟩ := exists_of_reference rfl (hrounds round hround).of_single
  obtain rfl := List.mem_singleton.mp hmem
  exact meets_media hconforms

/-- The fields of an item are its slots. -/
theorem holds_itemFields :
    List.Forall₂ (fun p slot => ∀ piece, Goes p piece → Slot.Holds slot piece)
      (parts (below item 0 (part "interleave" [] itemFields))) itemSlots := by
  refine .cons ?url (.cons ?source (.cons ?id (.cons ?uniqueId (.cons ?author (.cons ?title
    (.cons ?thumbnail (.cons ?duration (.cons ?medias (.cons ?kind (.cons ?error
    (.cons ?timeEnd .nil)))))))))))
  case id =>
    intro piece h
    exact holds_long rfl rfl h
  case duration | timeEnd =>
    intro piece h
    exact holds_int rfl rfl h
  case medias =>
    intro piece h
    exact holds_medias h
  case error =>
    intro piece h
    refine holds_value rfl ?_ h
    intro t ht
    exact (ofDatatype_of_fits rfl rfl ht).exists_truth
  all_goals
    intro piece h
    exact holds_text rfl h

/-- A root that conforms to the pattern grammar is an item with the children of a record. -/
theorem meets_of_conforming {e : Element} (h : ConformingRoot source e) :
    e.name = "item" ∧ e.uri.getD "" = "" ∧ Meets itemSlots e.children := by
  obtain ⟨c, hc, hname, hgroup⟩ := h
  have hstart : c = below root 0 start := by
    have hstarts : (parts source.root).filter (fun c => c.name = "start") =
        [below root 0 start] := rfl
    rw [← List.mem_singleton, ← hstarts]
    exact List.mem_filter.mpr ⟨hc, decide_eq_true hname⟩
  subst hstart
  obtain ⟨e', hsingle, hconforms⟩ := exists_of_reference rfl hgroup.of_single
  obtain ⟨rfl, -⟩ := List.cons.inj hsingle
  obtain ⟨hname, huri, hgroup, -⟩ := hconforms.of_written rfl (by decide)
  obtain ⟨pieces, hpieces, hperm⟩ := (hgroup.of_single.of_interleave rfl).pieces
  refine ⟨hname, huri, ?_⟩
  exact meets_of_pieces (by decide) (holds_of_described holds_itemFields hpieces) hperm

end VideoCatalog.Shipped.Pattern
