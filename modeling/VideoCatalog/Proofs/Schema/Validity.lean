import VideoCatalog.Proofs.Schema.Allowing
import VideoCatalog.Proofs.Text.Lexical

/-!
# When an element is valid by an XML Schema

An element is valid by an element declaration if it bears its name, the type of the declaration
allows its children, each of which is valid in turn, and, where the type is one of XML Schema
itself, the text is of that datatype. Elements are finite, so `Valid` says this to every depth
(`ValidTo`).

A declaration that names a complex type with one sequence is the case that matters for catalogues:
the children are then pieces, one for each component of the sequence (`ContentAllows.of_sequence`).
-/

namespace VideoCatalog.Grammar.Schema

open Xml (Cursor Element)

/-- The text is of the datatype that a declaration names, if it names one of XML Schema itself. -/
def TextFits (c : Cursor) (text : String) : Prop :=
  ∀ written type, c.element.attribute? "type" = some written →
    RefersTo c written schemaUri type → Text.OfDatatype type text

/-- The element and those below it are valid, so far down. -/
def ValidTo (source : Source) : Nat → Cursor → Element → Prop
  | 0, _, _ => True
  | depth + 1, c, e =>
    Named source c e ∧ ContentAllows source (ValidTo source depth) c e.children ∧
      TextFits c e.text

/-- The element is valid by the declaration, all the way down. -/
def Valid (source : Source) (c : Cursor) (e : Element) : Prop :=
  ∀ depth, ValidTo source depth c e

/-- The element is valid by one of the top-level declarations, as the root of a document has to be.
-/
def ValidRoot (source : Source) (e : Element) : Prop :=
  ∃ c ∈ source.root.children, isComponent "element" c = true ∧ Valid source c e

section

variable {source : Source} {fits : Cursor → Element → Prop} {c t compositor p : Cursor}
  {components : List Cursor} {written text : String} {e : Element} {es : List Element} {k : Nat}
  {type : TypeDefinition}

/-! ## Names -/

/-- What is declared in place has the name that is written there. -/
theorem Named.of_declared (h : Named source c e) (href : c.element.attribute? "ref" = none)
    (hwritten : c.element.attribute? "name" = some written) :
    e.name = Text.trim written ∧ e.uri.getD "" = localNamespace source c := by
  cases h with
  | declared _ hwritten' hname huri =>
      obtain rfl := Option.some.inj (hwritten.symm.trans hwritten')
      exact ⟨hname, huri⟩
  | referred href' _ _ _ _ => cases href.symm.trans href'

/-! ## Occurrences -/

theorem Occurs.eq_one (h : Occurs c k) (hmin : c.element.attribute? "minOccurs" = none)
    (hmax : c.element.attribute? "maxOccurs" = none) : k = 1 :=
  Nat.le_antisymm (h.greatestDefault hmax) (h.leastDefault hmin)

/-! ## Types -/

/-- A type named without a qualifier is that complex type of the schema. -/
theorem HasType.of_named (h : HasType source c type)
    (hinline : c.children.find? (isComponent "complexType") = Option.none)
    (hwritten : c.element.attribute? "type" = some written)
    (hplain : ':' ∉ (Text.trim written).toList) (hforeign : defaultNamespace c ≠ schemaUri)
    (htypes : typesNamed source (Text.trim written) = [t])
    (hcomplex : isComponent "simpleType" t = false) : type = .complex t := by
  cases h with
  | inlineComplex hinline' => cases hinline.symm.trans hinline'
  | inlineSimple _ hnone _ => cases hwritten.symm.trans hnone
  | complex _ hwritten' hrefers htypes' _ =>
      obtain rfl := Option.some.inj (hwritten.symm.trans hwritten')
      obtain ⟨-, rfl⟩ := Xml.Expands.eq_of_not_mem hrefers hplain
      obtain ⟨rfl, -⟩ := List.cons.inj (htypes.symm.trans htypes')
      rfl
  | simple _ hwritten' hrefers htypes' hsimple =>
      obtain rfl := Option.some.inj (hwritten.symm.trans hwritten')
      obtain ⟨-, rfl⟩ := Xml.Expands.eq_of_not_mem hrefers hplain
      obtain ⟨rfl, -⟩ := List.cons.inj (htypes.symm.trans htypes')
      cases hcomplex.symm.trans hsimple
  | builtIn _ hwritten' hrefers =>
      obtain rfl := Option.some.inj (hwritten.symm.trans hwritten')
      obtain ⟨huri, -⟩ := Xml.Expands.eq_of_not_mem hrefers hplain
      exact absurd huri.symm hforeign
  | none _ _ hnone => cases hwritten.symm.trans hnone

/-- A complex type of one sequence divides the children among its components. -/
theorem Allows.of_sequence (h : Allows fits (.complex t) es)
    (hparts : t.children.filter (fun p => !saysNothing p) = [compositor])
    (hname : compositor.name = "sequence")
    (hmin : compositor.element.attribute? "minOccurs" = none)
    (hmax : compositor.element.attribute? "maxOccurs" = none)
    (hcomponents : components? compositor = some components) :
    ∃ pieces, List.Forall₂ (fun p piece => (∀ e ∈ piece, fits p e) ∧ Occurs p piece.length)
      components pieces ∧ es = pieces.flatten := by
  cases h with
  | empty hnothing =>
      have hnone : t.children.filter (fun p => !saysNothing p) = [] := by
        rw [List.filter_eq_nil_iff]
        intro p hp
        rw [List.all_eq_true.mp hnothing p hp]
        exact Bool.false_ne_true
      cases hparts.symm.trans hnone
  | @composed _ compositor' rounds hparts' hoccurs hrounds =>
      obtain ⟨rfl, -⟩ := List.cons.inj (hparts.symm.trans hparts')
      obtain ⟨round, rfl⟩ := List.length_eq_one_iff.mp (hoccurs.eq_one hmin hmax)
      have hround := hrounds round List.mem_cons_self
      rw [List.flatten_singleton]
      cases hround with
      | sequence _ hcomponents' hpieces =>
          obtain rfl := Option.some.inj (hcomponents.symm.trans hcomponents')
          exact ⟨_, hpieces, rfl⟩
      | all hall _ _ _ =>
          -- A compositor is of one kind.
          have hname' : compositor.element.name = "all" := by
            simpa using (Bool.and_eq_true_iff.mp hall).2
          have hname : compositor.element.name = "sequence" := hname
          rw [hname] at hname'
          simp at hname'

/-- A declaration that names a complex type of one sequence divides the children among the
components of the sequence. -/
theorem ContentAllows.of_sequence (h : ContentAllows source fits c es)
    (hinline : c.children.find? (isComponent "complexType") = none)
    (hwritten : c.element.attribute? "type" = some written)
    (hplain : ':' ∉ (Text.trim written).toList) (hforeign : defaultNamespace c ≠ schemaUri)
    (htypes : typesNamed source (Text.trim written) = [t])
    (hcomplex : isComponent "simpleType" t = false)
    (hparts : t.children.filter (fun p => !saysNothing p) = [compositor])
    (hname : compositor.name = "sequence")
    (hmin : compositor.element.attribute? "minOccurs" = none)
    (hmax : compositor.element.attribute? "maxOccurs" = none)
    (hcomponents : components? compositor = some components) :
    ∃ pieces, List.Forall₂ (fun p piece => (∀ e ∈ piece, fits p e) ∧ Occurs p piece.length)
      components pieces ∧ es = pieces.flatten := by
  obtain ⟨type, htype, hallows⟩ := h
  obtain rfl := htype.of_named hinline hwritten hplain hforeign htypes hcomplex
  exact hallows.of_sequence hparts hname hmin hmax hcomponents

end

end VideoCatalog.Grammar.Schema
