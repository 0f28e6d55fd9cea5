import VideoCatalog.Proofs.Record.RoundTrip
import VideoCatalog.Proofs.Search.Folding
import VideoCatalog.Proofs.Search.XPath

/-!
# The entries of a snapshot under the search expression

An entry of a snapshot has one title and one author, each a leaf with the text that was written. So
the expression has an answer at every entry, and it is whether the record matches
(`isMatch?_of_shows`).

The entries stand in the order of the collection. Those that match, at their positions among the
children of the root, lead back to the stored records that match, and none of them fails to be read
(`readBackAll_entries`).
-/

namespace VideoCatalog

open Xml (Cursor Document Element Markup ShowAll Shows)

namespace Xml

/-! ## Children of one name -/

/-- The name of the element that a part is written as. -/
def Markup.name : Markup → String
  | .leaf name _ => name
  | .empty name => name
  | .block name _ _ => name

/-- The default namespace that the part declares, if it declares one. -/
def Markup.declares : Markup → Option String
  | .block _ uri _ => uri
  | _ => none

@[simp]
theorem Markup.name_leaf (name text : String) : (Markup.leaf name text).name = name :=
  rfl

@[simp]
theorem Markup.declares_leaf (name text : String) : (Markup.leaf name text).declares = none :=
  rfl

theorem Shows.isIn {uri : String} {part : Markup} {e : Element} (h : Shows (some uri) part e)
    (hpart : part.declares = none) (name : String) : e.isIn uri name = (part.name == name) := by
  have hbears : Bears (some uri) part.name e := by
    cases part with
    | leaf _ _ => exact h.1
    | empty _ => exact h.1
    | block _ declared _ =>
        obtain rfl : declared = none := hpart
        exact h.1
  simp [Element.isIn, hbears.name, hbears.space]

/-- The elements of one name show the parts of that name. -/
theorem ShowAll.filter {uri : String} (name : String) :
    ∀ {parts : List Markup} {es : List Element}, (∀ part ∈ parts, part.declares = none) →
      ShowAll (some uri) parts es →
        ShowAll (some uri) (parts.filter (fun part => part.name == name))
          (es.filter (fun e => e.isIn uri name))
  | [], [], _, _ => trivial
  | part :: parts, e :: es, hparts, ⟨he, hes⟩ => by
      have hrest := hes.filter name fun p hp => hparts p (List.mem_cons_of_mem _ hp)
      have hisIn := he.isIn (hparts part List.mem_cons_self) name
      rw [List.filter_cons, List.filter_cons, hisIn]
      split
      · exact ⟨he, hrest⟩
      · exact hrest

end Xml

namespace Record

theorem declares_fieldMarkup (names : FieldNames) (r : Record) :
    ∀ part ∈ fieldMarkup names r, part.declares = none := by
  have hmedias : (mediasMarkup names r.medias).declares = none := by
    cases r.medias <;> rfl
  simp [fieldMarkup, hmedias]

theorem name_mediasMarkup (names : FieldNames) (ms : List Media) :
    (mediasMarkup names ms).name = "medias" := by
  cases ms <;> rfl

end Record

namespace Search

/-! ## What the expression says of an entry -/

/-- The text holds the term, whatever the case of the letters, as far as a document carries the
text. -/
def Holds (term text : String) : Prop :=
  (Text.foldCase term).toList <:+: (Text.foldCase (Xml.clean text)).toList

/-- The title or the author of the record holds the term. -/
def Matches (term : String) (r : Record) : Prop :=
  Holds term r.title ∨ Holds term r.author

instance (term text : String) : Decidable (Holds term text) :=
  inferInstanceAs
    (Decidable ((Text.foldCase term).toList <:+: (Text.foldCase (Xml.clean text)).toList))

instance (term : String) (r : Record) : Decidable (Matches term r) :=
  inferInstanceAs (Decidable (Holds term r.title ∨ Holds term r.author))

/-- Both texts are folded character by character. -/
theorem holds_iff {term text : String} :
    Holds term text ↔
      term.toList.map (fun c => (Text.oneToOne Text.lowerChar c).getD c) <:+:
        (text.toList.map Xml.cleanChar).map (fun c => (Text.oneToOne Text.lowerChar c).getD c) := by
  have hfold : Text.caseFolding.foldChar = fun c => (Text.oneToOne Text.lowerChar c).getD c :=
    funext Text.foldChar_eq
  rw [Holds, Text.foldCase, Text.foldCase, Text.CaseFolding.toList_fold,
    Text.CaseFolding.toList_fold, Xml.toList_clean, hfold]

/-- A field that is written once, as a leaf, is asked for the text that was written. -/
theorem eval?_asks_of_showAll {parts : List Markup} {e : Element} {field value : String}
    (hparts : ∀ part ∈ parts, part.declares = none)
    (hfield : parts.filter (fun part => part.name == field) = [.leaf field value])
    (h : ShowAll (some videoNamespace) parts e.children) (term : String) :
    (asks field).eval? (bindings (Text.foldCase term)) e =
      some (.truth (decide (Holds term value))) := by
  have hfound := h.filter field hparts
  rw [hfield] at hfound
  rw [eval?_asks]
  cases hx : e.children.filter (fun c => c.isIn videoNamespace field) with
  | nil =>
      rw [hx] at hfound
      exact hfound.elim
  | cons x xs =>
      rw [hx] at hfound
      obtain ⟨⟨-, htext, hchildren⟩, -⟩ := hfound
      have hstring : XPath.stringValue? x = some (Xml.clean value) := by
        rw [XPath.stringValue?, hchildren, htext]
        rfl
      rw [XPath.Value.string?, hstring, Option.map_some, Text.CaseFolding.translate_eq_fold]
      rfl

/-- The expression selects the entry of a record exactly if the record matches. -/
theorem isMatch?_of_shows {r : Record} {e : Element}
    (h : Shows (some videoNamespace) (Video.markup none (Video.ofRecord r)) e) (term : String) :
    isMatch? (Text.foldCase term) e = some (decide (Matches term r)) := by
  obtain ⟨-, -, hchildren⟩ := h
  have hdeclares := Record.declares_fieldMarkup .internal r
  have htitle : (Record.fieldMarkup .internal r).filter (fun part => part.name == "title") =
      [.leaf "title" r.title] := by
    simp [Record.fieldMarkup, Record.name_mediasMarkup, FieldNames.internal]
  have hauthor : (Record.fieldMarkup .internal r).filter (fun part => part.name == "author") =
      [.leaf "author" r.author] := by
    simp [Record.fieldMarkup, Record.name_mediasMarkup, FieldNames.internal]
  rw [isMatch?_eq, eval?_asks_of_showAll hdeclares htitle hchildren,
    eval?_asks_of_showAll hdeclares hauthor hchildren]
  by_cases hholds : Holds term r.title
  · simp [XPath.Value.boolean, Matches, hholds]
  · simp [XPath.Value.boolean, Matches, hholds]

/-! ## From the entries back to the records -/

/-- Whether the expression selects the entry. -/
def isSelected (term : String) (entry : Element) : Bool :=
  (isMatch? (Text.foldCase term) entry).getD false

/-- The entries below a root that the expression selects. -/
def selectedEntries (term : String) (root : Element) : List Cursor :=
  (Cursor.children { element := root }).filter (fun c => isSelected term c.element)

/-- The element is the entry of the record: the expression selects it exactly if the record matches,
and it leads back to a record. -/
structure IsEntry (term : String) (r : Record) (e : Element) : Prop where
  isIn : e.isIn videoNamespace "video" = true
  answer : isMatch? (Text.foldCase term) e = some (decide (Matches term r))
  read : ∃ v, Video.ofElement e = .ok v ∧ ∃ r', v.toRecord = .ok r'

theorem IsEntry.isSelected_eq {term : String} {r : Record} {e : Element} (h : IsEntry term r e) :
    isSelected term e = decide (Matches term r) := by
  rw [isSelected, h.answer, Option.getD_some]

theorem isEntry_of_shows {r : Record} {e : Element}
    (h : Shows (some videoNamespace) (Video.markup none (Video.ofRecord r)) e) (term : String) :
    IsEntry term r e := by
  obtain ⟨hisIn, v, hread, hrecord⟩ := Video.leadsTo_of_shows rfl h
  exact ⟨hisIn, isMatch?_of_shows h term, v, hread, _, hrecord⟩

theorem readBack_of_isEntry {collection : List Record} {term : String} {r : Record} {c : Cursor}
    (h : IsEntry term r c.element) {i : Nat} (hpath : c.path = [i]) (hi : collection[i]? = some r) :
    readBack collection c = .ok r := by
  obtain ⟨v, hread, r', hrecord⟩ := h.read
  simp [readBack, stored?, hpath, hi, hread, hrecord]

/-- The entries that are selected lead back, in order, to the records that match. -/
theorem map_readBack_entries {term : String} (root : Element) {rs : List Record} {es : List Element}
    (h : List.Forall₂ (IsEntry term) rs es) (before : List Record) :
    ((Cursor.childrenFrom { element := root } before.length es).filter
      (fun c => isSelected term c.element)).map (readBack (before ++ rs)) =
        (rs.filter (fun r => Matches term r)).map .ok := by
  -- `before` are the records whose entries come first: an entry stands at the position that is their
  -- number, and so does its record in the collection.
  induction h generalizing before with
  | nil => rfl
  | @cons r e rs es he _ ih =>
      have hrest := ih (before ++ [r])
      rw [List.length_append, List.length_singleton, List.append_assoc,
        List.singleton_append] at hrest
      rw [Cursor.childrenFrom, List.filter_cons, List.filter_cons, he.isSelected_eq]
      split
      · rw [List.map_cons, List.map_cons, hrest, readBack_of_isEntry he rfl (by simp)]
      · exact hrest

theorem faults_map_ok (rs : List Record) : faults (rs.map .ok) = [] := by
  rw [faults, List.filterMap_map]
  exact List.filterMap_eq_nil_iff.mpr fun _ _ => rfl

theorem records_map_ok (rs : List Record) : records (rs.map .ok) = rs := by
  rw [records, List.filterMap_map]
  exact List.filterMap_some

/-- All entries that are selected are read back, as the records that match. -/
theorem readBackAll_entries {term : String} {collection : List Record} {root : Element}
    (h : List.Forall₂ (IsEntry term) collection root.children) :
    readBackAll collection (selectedEntries term root) =
      .ok (collection.filter (fun r => Matches term r)) := by
  have hmap : (selectedEntries term root).map (readBack collection) =
      (collection.filter (fun r => Matches term r)).map .ok := map_readBack_entries root h []
  simp only [readBackAll, hmap, faults_map_ok, records_map_ok, List.isEmpty_nil, if_true]

theorem exists_isEntry {term : String} {rs : List Record} {es : List Element}
    (h : List.Forall₂ (IsEntry term) rs es) {e : Element} (he : e ∈ es) :
    ∃ r, IsEntry term r e := by
  induction h with
  | nil => cases he
  | cons hr _ ih =>
      rcases List.mem_cons.mp he with rfl | he
      · exact ⟨_, hr⟩
      · exact ih he

/-- The expression has an answer at every entry, and leads to those that are selected. -/
theorem nodes?_of_entries {term : String} {collection : List Record} {d : Document} {root : Element}
    (hroot : d.root = some root) (hname : root.isIn videoNamespace "videos" = true)
    (h : List.Forall₂ (IsEntry term) collection root.children) :
    query.nodes? (bindings (Text.foldCase term)) d =
      some (selectedEntries term root) := by
  have hentry : ∀ c ∈ Cursor.children { element := root }, ∃ r, IsEntry term r c.element := by
    intro c hc
    rw [Cursor.children, Cursor.childrenFrom_eq_map] at hc
    obtain ⟨⟨e, i⟩, hentry, rfl⟩ := List.mem_map.mp hc
    exact exists_isEntry h (List.fst_mem_of_mem_zipIdx hentry)
  have hall : (Cursor.children { element := root }).filter (fun c =>
      c.element.isIn videoNamespace "video") = Cursor.children { element := root } :=
    List.filter_eq_self.mpr fun c hc => (hentry c hc).choose_spec.isIn
  rw [nodes?_query _ hroot, if_pos hname, hall]
  refine XPath.keep?_of_eq (q := isSelected term) fun c hc => ?_
  obtain ⟨r, hr⟩ := hentry c hc
  rw [hr.isSelected_eq, hr.answer]

end Search

end VideoCatalog
