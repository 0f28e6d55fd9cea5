import VideoCatalog.Engine
import VideoCatalog.Proofs.Xml.Tree

/-!
# An engine that parses what was written

What a parser makes of a text is up to the engine. `Backend.Reads b text` says that it finds the
tree that the text denotes; the lines on which it sees the tags are its own affair. Such an engine
gives a root that shows the part which was written (`Backend.Reads.document`), since showing a part
has nothing to do with lines (`Shows.of_unlined_eq`).
-/

namespace VideoCatalog

namespace Xml

/-! ## Elements, lines aside -/

/-- The start tag as it is apart from its line. -/
def Tag.unlined (t : Tag) : Tag :=
  { t with line := 1 }

mutual
/-- The element as it is apart from the lines of its tags. -/
def Element.unlined : Element → Element
  | .mk tag text children => .mk tag.unlined text (allUnlined children)

/-- The elements as they are apart from the lines of their tags. -/
def Element.allUnlined : List Element → List Element
  | [] => []
  | e :: es => e.unlined :: allUnlined es
end

/-- What agrees between elements that agree apart from lines. -/
theorem Element.eqs_of_unlined_eq {e e' : Element} (h : e.unlined = e'.unlined) :
    e.tag.unlined = e'.tag.unlined ∧ e.text = e'.text ∧
      allUnlined e.children = allUnlined e'.children := by
  cases e
  cases e'
  exact Element.mk.inj h

@[simp]
theorem Element.attribute?_unlined (e : Element) (name : String) :
    e.unlined.attribute? name = e.attribute? name := by
  cases e
  rfl

@[simp]
theorem Element.isIn_unlined (e : Element) (uri name : String) :
    e.unlined.isIn uri name = e.isIn uri name := by
  cases e
  rfl

@[simp]
theorem Element.declarations_unlined (e : Element) :
    e.unlined.tag.declarations = e.tag.declarations := by
  cases e
  rfl

theorem Element.allUnlined_eq_map (es : List Element) : allUnlined es = es.map unlined := by
  induction es with
  | nil => rfl
  | cons e es ih => rw [allUnlined, ih, List.map_cons]

theorem Element.children_unlined (e : Element) : e.unlined.children = e.children.map unlined := by
  cases e
  exact allUnlined_eq_map _

theorem Element.eq_nil_of_allUnlined_eq {es : List Element} (h : allUnlined [] = allUnlined es) :
    es = [] := by
  cases es with
  | nil => rfl
  | cons e es => exact nomatch h

theorem Bears.of_unlined_eq {space : Option String} {name : String} {e e' : Element}
    (h : e.unlined = e'.unlined) (he : Bears space name e) : Bears space name e' := by
  obtain ⟨htag, -, -⟩ := Element.eqs_of_unlined_eq h
  have hname : e.tag.unlined.name = e'.tag.unlined.name := by rw [htag]
  have huri : e.tag.unlined.uri = e'.tag.unlined.uri := by rw [htag]
  have hattributes : e.tag.unlined.attributes = e'.tag.unlined.attributes := by rw [htag]
  exact ⟨hname.symm.trans he.name, huri.symm.trans he.space, hattributes.symm.trans he.attributes⟩

mutual
/-- Whether an element shows a part does not depend on lines. -/
theorem Shows.of_unlined_eq {space : Option String} :
    ∀ {part : Markup} {e e' : Element}, e.unlined = e'.unlined → Shows space part e →
      Shows space part e'
  | .leaf name value, e, e', h, ⟨hbears, htext, hchildren⟩ => by
      obtain ⟨-, htext', hchildren'⟩ := Element.eqs_of_unlined_eq h
      exact ⟨hbears.of_unlined_eq h, htext' ▸ htext,
        Element.eq_nil_of_allUnlined_eq (hchildren ▸ hchildren')⟩
  | .empty name, e, e', h, ⟨hbears, htext, hchildren⟩ => by
      obtain ⟨-, htext', hchildren'⟩ := Element.eqs_of_unlined_eq h
      exact ⟨hbears.of_unlined_eq h, htext' ▸ htext,
        Element.eq_nil_of_allUnlined_eq (hchildren ▸ hchildren')⟩
  | .block name uri content, e, e', h, ⟨hbears, htext, hchildren⟩ => by
      obtain ⟨-, htext', hchildren'⟩ := Element.eqs_of_unlined_eq h
      exact ⟨hbears.of_unlined_eq h, htext' ▸ htext, hchildren.of_allUnlined_eq hchildren'⟩

theorem ShowAll.of_allUnlined_eq {space : Option String} :
    ∀ {parts : List Markup} {es es' : List Element},
      Element.allUnlined es = Element.allUnlined es' → ShowAll space parts es →
        ShowAll space parts es'
  | [], [], [], _, _ => trivial
  | part :: parts, e :: es, e' :: es', h, ⟨he, hes⟩ => by
      obtain ⟨he', hes'⟩ := List.cons.inj h
      exact ⟨he.of_unlined_eq he', hes.of_allUnlined_eq hes'⟩
end

end Xml

/-! ## Engines -/

namespace Backend

variable {G : Type}

/-- The engine takes the text and finds in it the tree that it denotes, wherever it sees the lines.
-/
def Reads (b : Backend G) (text : String) : Prop :=
  ∀ root, Xml.Element.ofText? text = .ok root →
    ∃ d root', b.document text = .ok d ∧ d.root = some root' ∧ root'.unlined = root.unlined

/-- What was written is found again. -/
theorem Reads.document {b : Backend G} {part : Xml.Markup} (h : b.Reads part.document)
    (hpart : part.IsProper) :
    ∃ d root, b.document part.document = .ok d ∧ d.root = some root ∧ Xml.Shows none part root := by
  obtain ⟨root, hroot, hshows⟩ := Xml.ofText?_document hpart
  obtain ⟨d, root', hdocument, hroot', hlines⟩ := h root hroot
  exact ⟨d, root', hdocument, hroot', hshows.of_unlined_eq hlines.symm⟩

end Backend

end VideoCatalog
