import VideoCatalog.Proofs.Xml.Place
import VideoCatalog.Proofs.Xml.Written

/-!
# The declarations in force

At an element the declarations on it and around it are in force, and for each qualifier the
innermost one counts. `Cursor.declarations` keeps one declaration for each qualifier; looking up in
it comes to the same (`Cursor.lookup?_declarations`). Where the declarations are written into
attributes and read again, their namespaces become what attributes carry of them (`lookup?_asRead`).

In a document with a legible root every element is legible in the scope in which it stands
(`Document.Holds.legible`).
-/

namespace VideoCatalog.Xml

/-! ## Looking up -/

theorem lookup?_congr {a b : List Declaration} {q : Option String}
    (h : a.find? (fun d => d.qualifier = q) = b.find? (fun d => d.qualifier = q)) :
    lookup? a q = lookup? b q := by
  rw [lookup?, lookup?, h]

/-- A qualifier that is declared inside hides what is declared outside. -/
theorem lookup?_append_of_mem {inner outer : List Declaration} {q : Option String}
    (h : ∃ d ∈ inner, d.qualifier = q) : lookup? (inner ++ outer) q = lookup? inner q := by
  obtain ⟨d, hd, hq⟩ := h
  have hsome : (inner.find? (fun d => d.qualifier = q)).isSome = true :=
    List.find?_isSome.mpr ⟨d, hd, by simpa using hq⟩
  obtain ⟨found, hfound⟩ := Option.isSome_iff_exists.mp hsome
  refine lookup?_congr ?_
  rw [List.find?_append, hfound]
  rfl

/-- A qualifier that is not declared inside stands for what it stands for outside. -/
theorem lookup?_append_of_not_mem {inner outer : List Declaration} {q : Option String}
    (h : ∀ d ∈ inner, d.qualifier ≠ q) : lookup? (inner ++ outer) q = lookup? outer q := by
  have hnone : inner.find? (fun d => d.qualifier = q) = none :=
    List.find?_eq_none.mpr fun d hd => by simpa using h d hd
  refine lookup?_congr ?_
  rw [List.find?_append, hnone]
  rfl

/-- What is declared inside does not depend on what is outside, and the other way round. -/
theorem lookup?_append_congr {inner outer outer' : List Declaration} {q : Option String}
    (h : (∀ d ∈ inner, d.qualifier ≠ q) → lookup? outer q = lookup? outer' q) :
    lookup? (inner ++ outer) q = lookup? (inner ++ outer') q := by
  by_cases hmem : ∃ d ∈ inner, d.qualifier = q
  · rw [lookup?_append_of_mem hmem, lookup?_append_of_mem hmem]
  · have hnot : ∀ d ∈ inner, d.qualifier ≠ q := fun d hd hq => hmem ⟨d, hd, hq⟩
    rw [lookup?_append_of_not_mem hnot, lookup?_append_of_not_mem hnot, h hnot]

/-- A declaration as it is read from an attribute. -/
def Declaration.asRead (d : Declaration) : Declaration :=
  { d with uri := inAttribute d.uri }

theorem inAttribute_eq_empty_iff {s : String} : inAttribute s = "" ↔ s = "" := by
  rw [← String.toList_eq_nil_iff, toList_inAttribute, List.map_eq_nil_iff, String.toList_eq_nil_iff]

theorem lookup?_asRead (ds : List Declaration) (q : Option String) :
    lookup? (ds.map Declaration.asRead) q = (lookup? ds q).map inAttribute := by
  by_cases hxml : q = some "xml"
  · have hfixed : inAttribute "http://www.w3.org/XML/1998/namespace" =
        "http://www.w3.org/XML/1998/namespace" := by decide
    simp [lookup?, hxml, hfixed]
  · have hfind : (ds.map Declaration.asRead).find? (fun d => d.qualifier = q) =
        (ds.find? (fun d => d.qualifier = q)).map Declaration.asRead := by
      rw [List.find?_map]
      rfl
    rw [lookup?, lookup?, if_neg hxml, if_neg hxml, hfind]
    cases ds.find? (fun d => d.qualifier = q) with
    | none => rfl
    | some d =>
        by_cases hempty : d.uri = ""
        · simp [Declaration.asRead, hempty, inAttribute_eq_empty_iff.mpr rfl]
        · simp [Declaration.asRead, hempty, inAttribute_eq_empty_iff]

/-- Whether an attribute is a declaration depends on its name alone. -/
theorem declaration?_eq_none_congr {name value : String} (h : declaration? (name, value) = none)
    (value' : String) : declaration? (name, value') = none := by
  rcases hsplit : splitName name with ⟨q, n⟩
  cases q with
  | none =>
      have hne : n ≠ "xmlns" := by
        rintro rfl
        simp [declaration?, hsplit] at h
      simp [declaration?, hsplit, hne]
  | some q =>
      have hne : q ≠ "xmlns" := by
        rintro rfl
        simp [declaration?, hsplit] at h
      simp [declaration?, hsplit, hne]

/-- Among attributes that are written down the declarations are found again. -/
theorem filterMap_asRead (ds : List Declaration) {as : List (String × String)}
    (has : ∀ a ∈ as, declaration? a = none) :
    (asRead (ds.map Declaration.written ++ as)).filterMap declaration? =
      ds.map Declaration.asRead := by
  have hds : asRead (ds.map Declaration.written) =
      (ds.map Declaration.asRead).map Declaration.written := by
    rw [asRead, List.map_map, List.map_map]
    rfl
  have hnone : (asRead as).filterMap declaration? = [] := by
    rw [List.filterMap_eq_nil_iff]
    intro a ha
    obtain ⟨b, hb, rfl⟩ := List.mem_map.mp ha
    exact declaration?_eq_none_congr (has b hb) _
  have happend : asRead (ds.map Declaration.written ++ as) =
      asRead (ds.map Declaration.written) ++ asRead as := List.map_append
  rw [happend, List.filterMap_append, hds, filterMap_written, hnone, List.append_nil]

theorem lookup_asRead (as : List (String × String)) (name : String) :
    (asRead as).lookup name = (as.lookup name).map inAttribute := by
  induction as with
  | nil => rfl
  | cons a as ih =>
      rw [asRead, List.map_cons, List.lookup_cons, List.lookup_cons]
      split
      · rfl
      · exact ih

/-- Declarations of different qualifiers are attributes of different names, and of other names than
attributes that declare nothing. -/
theorem areAttributes_append {ds : List Declaration} {as : List (String × String)}
    (hnames : ∀ d ∈ ds, isName d.written.1 = true)
    (hdistinct : (ds.map Declaration.qualifier).Nodup) (has : AreAttributes as)
    (hnone : ∀ a ∈ as, declaration? a = none) :
    AreAttributes (ds.map Declaration.written ++ as) where
  names := by
    intro a ha
    rcases List.mem_append.mp ha with ha | ha
    · obtain ⟨d, hd, rfl⟩ := List.mem_map.mp ha
      exact hnames d hd
    · exact has.names a ha
  distinct := by
    have hsame : ∀ (d : Declaration) (a : String × String), d.written.1 = a.1 →
        declaration? a = some { d with uri := a.2 } := by
      rintro d ⟨name, value⟩ rfl
      exact declaration?_written { d with uri := value }
    rw [List.map_append, List.map_map, List.nodup_append]
    refine ⟨?_, has.distinct, ?_⟩
    · refine List.Pairwise.map _ ?_ (List.pairwise_map.mp hdistinct)
      intro d d' hne heq
      have hread := hsame d d'.written heq
      rw [declaration?_written] at hread
      exact hne (congrArg Declaration.qualifier (Option.some.inj hread)).symm
    · intro name hname name' hname' heq
      obtain ⟨d, -, rfl⟩ := List.mem_map.mp hname
      obtain ⟨a, ha, rfl⟩ := List.mem_map.mp hname'
      have hread := hsame d a heq
      rw [hnone a ha] at hread
      cases hread

/-! ## At a cursor -/

namespace Cursor

/-- The declarations on the elements around this one, innermost first. -/
def outer (c : Cursor) : List Declaration :=
  c.ancestors.flatMap (fun e => e.tag.declarations)

/-- The declarations on this element and around it, innermost first. -/
def inForce (c : Cursor) : List Declaration :=
  c.element.tag.declarations ++ c.outer

/-- The namespace that a qualifier stands for at this element. -/
def binding? (c : Cursor) (q : Option String) : Option String :=
  lookup? c.inForce q

theorem lookup?_addDeclarations (known ds : List Declaration) (q : Option String) :
    lookup? (addDeclarations known ds) q = lookup? (known ++ ds) q := by
  induction ds generalizing known with
  | nil => rw [addDeclarations, List.append_nil]
  | cons d ds ih =>
      rw [addDeclarations]
      split
      · next hknown =>
        rw [ih]
        refine lookup?_append_congr fun hnot => ?_
        obtain ⟨k, hk, heq⟩ := List.any_eq_true.mp hknown
        have hne : ∀ d' ∈ [d], d'.qualifier ≠ q := by
          intro d' hd' hq
          obtain rfl := List.mem_singleton.mp hd'
          exact hnot k hk ((beq_iff_eq.mp heq).trans hq)
        exact (lookup?_append_of_not_mem hne).symm
      · rw [ih, List.append_assoc, List.singleton_append]

theorem mem_addDeclarations {known ds : List Declaration} {d : Declaration}
    (h : d ∈ addDeclarations known ds) : d ∈ known ∨ d ∈ ds := by
  induction ds generalizing known with
  | nil => exact .inl h
  | cons d' ds ih =>
      rw [addDeclarations] at h
      split at h
      · exact (ih h).imp_right (List.mem_cons_of_mem _)
      · rcases ih h with hknown | hds
        · rcases List.mem_append.mp hknown with hknown | hnew
          · exact .inl hknown
          · exact .inr (List.mem_singleton.mp hnew ▸ List.mem_cons_self)
        · exact .inr (List.mem_cons_of_mem _ hds)

/-- Each qualifier is declared once. -/
theorem nodup_addDeclarations {known : List Declaration}
    (h : (known.map Declaration.qualifier).Nodup) (ds : List Declaration) :
    ((addDeclarations known ds).map Declaration.qualifier).Nodup := by
  induction ds generalizing known with
  | nil => exact h
  | cons d ds ih =>
      rw [addDeclarations]
      split
      · exact ih h
      · next hnew =>
        refine ih ?_
        rw [List.map_append, List.map_singleton, List.nodup_append]
        refine ⟨h, List.pairwise_singleton _ _, ?_⟩
        rintro q hq _ hd rfl
        obtain rfl := List.mem_singleton.mp hd
        obtain ⟨k, hk, heq⟩ := List.mem_map.mp hq
        exact hnew (List.any_eq_true.mpr ⟨k, hk, beq_iff_eq.mpr heq⟩)

theorem addDeclarations_append (known as bs : List Declaration) :
    addDeclarations known (as ++ bs) = addDeclarations (addDeclarations known as) bs := by
  induction as generalizing known with
  | nil => rfl
  | cons a as ih =>
      rw [List.cons_append, addDeclarations, addDeclarations]
      split
      · exact ih _
      · exact ih _

theorem declarations_eq (c : Cursor) : c.declarations = addDeclarations [] c.inForce := by
  have hfold : ∀ (es : List Element) (known : List Declaration),
      es.foldl (fun known e => addDeclarations known e.tag.declarations) known =
        addDeclarations known (es.flatMap (fun e => e.tag.declarations)) := by
    intro es
    induction es with
    | nil => exact fun _ => rfl
    | cons e es ih =>
        intro known
        rw [List.foldl_cons, ih, List.flatMap_cons, addDeclarations_append]
  exact hfold c.scope []

/-- The declarations that are kept say the same as all that are in force. -/
theorem lookup?_declarations (c : Cursor) (q : Option String) :
    lookup? c.declarations q = c.binding? q := by
  rw [declarations_eq, lookup?_addDeclarations, List.nil_append, binding?]

theorem mem_inForce_of_mem_declarations {c : Cursor} {d : Declaration} (h : d ∈ c.declarations) :
    d ∈ c.inForce := by
  rw [declarations_eq] at h
  exact (mem_addDeclarations h).resolve_left List.not_mem_nil

theorem nodup_declarations (c : Cursor) : (c.declarations.map Declaration.qualifier).Nodup := by
  rw [declarations_eq]
  have hnone : (([] : List Declaration).map Declaration.qualifier).Nodup := List.nodup_nil
  exact nodup_addDeclarations hnone _

/-! ## Legible documents -/

/-- The element is legible where it stands, and the declarations in force are made by names and by
characters that a document can hold. -/
structure Legible (c : Cursor) : Prop where
  element : c.element.isLegible c.outer = true
  names : ∀ d ∈ c.inForce, isName d.written.1 = true

theorem Legible.tag {c : Cursor} (h : c.Legible) : c.element.tag.Legible c.outer := by
  obtain ⟨element, ancestors, path⟩ := c
  obtain ⟨tag, text, children⟩ := element
  exact Tag.legible_of_isLegible (Bool.and_eq_true_iff.mp h.element).1

/-- The name of an element in a namespace is its qualifier and its local name. -/
theorem Legible.splitName_of_isIn {c : Cursor} (h : c.Legible) {uri name : String}
    (hin : c.element.isIn uri name = true) :
    splitName c.element.tag.writtenName = (c.element.tag.qualifier, name) := by
  obtain ⟨huri, hname⟩ := Element.isIn_iff.mp hin
  rw [h.tag.splitName (by rw [huri]; rfl), hname]

/-- At an element in a namespace its qualifier stands for the namespace. -/
theorem Legible.binding?_of_isIn {c : Cursor} (h : c.Legible) {uri name : String}
    (hin : c.element.isIn uri name = true) :
    c.binding? c.element.tag.qualifier = some uri := by
  obtain ⟨huri, -⟩ := Element.isIn_iff.mp hin
  rw [← huri]
  exact h.tag.lookup? (by rw [huri]; rfl)

theorem Legible.child {c below : Cursor} (h : c.Legible) (hbelow : below ∈ c.children) :
    below.Legible := by
  obtain ⟨i, -, hi⟩ := exists_getElem?_of_mem_children hbelow
  rw [getElem?_children] at hi
  obtain ⟨e, he, rfl⟩ := Option.map_eq_some_iff.mp hi
  obtain ⟨element, ancestors, path⟩ := c
  obtain ⟨tag, text, children⟩ := element
  have hall : Element.areLegible (tag.declarations ++ ancestors.flatMap (·.tag.declarations))
      children = true := (Bool.and_eq_true_iff.mp h.element).2
  have hlegible := Element.areLegible_iff.mp hall e (List.mem_of_getElem? he)
  refine ⟨hlegible, fun d hd => ?_⟩
  rcases List.mem_append.mp hd with hown | houter
  · obtain ⟨tag', text', children'⟩ := e
    have htag := Tag.legible_of_isLegible (Bool.and_eq_true_iff.mp hlegible).1
    exact htag.attributes.names _ (List.mem_append_left _ (List.mem_map_of_mem hown))
  · exact h.names d houter

end Cursor

theorem Document.Holds.legible {d : Document} {root : Element} {c : Cursor} (h : d.Holds c)
    (hroot : d.root = some root) (hlegible : root.isLegible [] = true) : c.Legible := by
  refine h.induction hroot ⟨hlegible, fun d hd => ?_⟩ Cursor.Legible.child
  obtain ⟨tag, text, children⟩ := root
  have htag := Tag.legible_of_isLegible (Bool.and_eq_true_iff.mp hlegible).1
  have hown : d ∈ tag.declarations := (List.mem_append.mp hd).resolve_right List.not_mem_nil
  exact htag.attributes.names _ (List.mem_append_left _ (List.mem_map_of_mem hown))

end VideoCatalog.Xml
