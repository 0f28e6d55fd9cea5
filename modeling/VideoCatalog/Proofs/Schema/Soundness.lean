import VideoCatalog.Proofs.Grammar.Origin
import VideoCatalog.Proofs.Schema.Allowing
import VideoCatalog.Proofs.Schema.Particles

/-!
# What an XML Schema allows, its model does not call a violation

An element-only declaration is read as a content that admits every child sequence that its type
allows, provided that the reader resolves its names as the language does (`Clear`):

* its type is not one of the types of XML Schema under a local name that a complex type of the
  schema has too. The reader forgets the namespace and takes the complex type of the schema;
* names are written without white space around them, which the language drops and the reader keeps.
-/

namespace VideoCatalog.Grammar.Schema

open Xml (Cursor Document Element)

/-! ## What the reader understands -/

/-- A name or a reference is written without white space around it. -/
def Tidy (c : Cursor) (kind : String) : Prop :=
  ∀ written, c.element.attribute? kind = some written → Text.trim written = written

/-- The names that an element declaration uses are such that the reader resolves them as the
language does. -/
structure Clear (source : Source) (c : Cursor) : Prop where
  type : Tidy c "type"
  foreign : ∀ written name, c.element.attribute? "type" = some written →
    RefersTo c written schemaUri name → ∀ t ∈ source.root.children,
      isComponent "complexType" t = true → t.element.attribute? "name" ≠ some name
  names : ∀ t compositor p, complexType? source c = some t → compositor ∈ t.children →
    p ∈ compositor.children → Tidy p "name" ∧ Tidy p "ref"

section

variable {document : Document} {source : Source} {root c p t compositor : Cursor}
  {fits : Cursor → Element → Prop} {es : List Element} {q : Particle Nat} {name : String}

/-! ## Names -/

/-- A reference is read by its local name. -/
theorem RefersTo.localName_eq {written uri : String} (h : RefersTo c written uri name)
    (htidy : Text.trim written = written) : Xml.localName written = name := by
  rw [← htidy]
  exact Xml.Expands.localName_eq h

/-- What the reader finds under a name is among what bears the name. -/
theorem mem_of_lastNamed?_elements
    (h : lastNamed? name (Source.ofRoot document root).elements = some t) :
    t ∈ elementsNamed (.ofRoot document root) name ∧ t.element.attribute? "name" = some name := by
  obtain ⟨hmem, hkind, hname⟩ := mem_named (mem_of_lastNamed? h)
  refine ⟨List.mem_filter.mpr ⟨hmem, ?_⟩, hname⟩
  simp [hkind, bears, hname]

theorem mem_of_lastNamed?_types
    (h : lastNamed? name (Source.ofRoot document root).types = some t) :
    t ∈ typesNamed (.ofRoot document root) name := by
  obtain ⟨hmem, hkind, hname⟩ := mem_named (mem_of_lastNamed? h)
  refine List.mem_filter.mpr ⟨hmem, ?_⟩
  simp [hkind, bears, hname]

/-- The reader's name for a component is that of the elements that it stands for. -/
theorem Called.eq_of_named {e : Element} (h : Called (.ofRoot document root) p name)
    (hname : Tidy p "name") (href : Tidy p "ref") (he : Named (.ofRoot document root) p e) :
    name = e.name := by
  cases he with
  | declared hnone hwritten heq _ =>
      cases h with
      | declared _ => rw [writtenName, hwritten, Option.getD_some, heq, hname _ hwritten]
      | undefined hsome _ => cases hnone.symm.trans hsome
      | referred hsome _ _ => cases hnone.symm.trans hsome
  | @referred written g hwritten hrefers hone hg _ =>
      have hlocal := hrefers.localName_eq (href _ hwritten)
      cases h with
      | declared hnone => cases hnone.symm.trans hwritten
      | undefined hsome _ =>
          obtain rfl := Option.some.inj (hwritten.symm.trans hsome)
          exact hlocal
      | referred hsome hfound hcalled =>
          obtain rfl := Option.some.inj (hwritten.symm.trans hsome)
          obtain ⟨hmem, hbears⟩ := mem_of_lastNamed?_elements hfound
          -- the element that is found is the only one that bears the name, so it is no reference
          rw [hlocal] at hmem hbears
          rw [hone, List.mem_singleton] at hmem
          subst hmem
          cases hcalled with
          | declared _ => rw [writtenName, hbears, Option.getD_some]
          | undefined hsome' _ => cases hg.symm.trans hsome'
          | referred hsome' _ _ => cases hg.symm.trans hsome'

/-! ## Numbers -/

theorem Denotes.eq_of_bound? {text : String} {n k : Nat} (h : Denotes text n)
    (hk : bound? text = some k) : k = n := by
  obtain ⟨ds, hds, hn⟩ := h
  obtain ⟨i, hi, rfl⟩ := Option.map_eq_some_iff.mp hk
  have hdigit : ∀ c ∈ ds, c.isDigit = true := by
    unfold Text.digits? at hn
    split at hn
    · cases hn
    · next hall => simpa using And.right (by simpa using hall)
  obtain ⟨hsome, -⟩ := Option.filter_eq_some_iff.mp hi
  have hvalue : some (n : Int) = some i := by
    rw [← hsome]
    rcases hds with hds | hds
    · rw [hds]
      cases ds with
      | nil => cases hn
      | cons d ds =>
          have hd := hdigit d List.mem_cons_self
          split
          · simp_all
          · simp_all
          · rw [hn]
            rfl
    · rw [hds]
      show some (n : Int) = (Text.digits? ds).map Int.ofNat
      rw [hn]
      rfl
  obtain rfl := Option.some.inj hvalue
  rfl

/-- The least number of occurrences that the reader finds. -/
def least? (c : Cursor) : Option Nat :=
  match c.element.attribute? "minOccurs" with
  | some text => bound? text
  | none => some 1

/-- The greatest number of occurrences that the reader finds. -/
def greatest? (c : Cursor) : Option (Option Nat) :=
  match c.element.attribute? "maxOccurs" with
  | some text => if Text.trim text = "unbounded" then some none else (bound? text).map some
  | none => some (some 1)

theorem occurs?_eq (c : Cursor) :
    occurs? c =
      (least? c).bind (fun least => (greatest? c).map (fun greatest => (least, greatest))) := by
  have hmax : ∀ least : Nat, (do
      let greatest ←
        match c.element.attribute? "maxOccurs" with
        | some text =>
          if Text.trim text = "unbounded" then some none else (bound? text).map some
        | none => some (some 1)
      some (least, greatest)) = (greatest? c).map (fun greatest => (least, greatest)) := by
    intro least
    unfold greatest?
    cases c.element.attribute? "maxOccurs" with
    | none => rfl
    | some text =>
        dsimp only
        split
        · rfl
        · cases bound? text <;> rfl
  unfold occurs? least?
  cases c.element.attribute? "minOccurs" with
  | none => exact hmax 1
  | some text =>
      dsimp only
      cases bound? text with
      | none => rfl
      | some least => exact hmax least

/-- The reader's bounds are those of the component. -/
theorem Occurs.within {k least : Nat} {greatest : Option Nat} (h : Occurs c k)
    (hoccurs : occurs? c = some (least, greatest)) :
    least ≤ k ∧ ∀ m, greatest = some m → k ≤ m := by
  rw [occurs?_eq] at hoccurs
  obtain ⟨least', hleast, hrest⟩ := Option.bind_eq_some_iff.mp hoccurs
  obtain ⟨greatest', hgreatest, heq⟩ := Option.map_eq_some_iff.mp hrest
  obtain ⟨rfl, rfl⟩ := Prod.mk.inj heq
  unfold least? at hleast
  unfold greatest? at hgreatest
  constructor
  · cases hmin : c.element.attribute? "minOccurs" with
    | none =>
        rw [hmin] at hleast
        obtain rfl := Option.some.inj hleast
        exact h.leastDefault hmin
    | some text =>
        rw [hmin] at hleast
        obtain ⟨n, hn, hle⟩ := h.least text hmin
        exact hn.eq_of_bound? hleast ▸ hle
  · rintro m rfl
    cases hmax : c.element.attribute? "maxOccurs" with
    | none =>
        rw [hmax] at hgreatest
        obtain rfl := Option.some.inj (Option.some.inj hgreatest)
        exact h.greatestDefault hmax
    | some text =>
        rw [hmax] at hgreatest
        dsimp only at hgreatest
        split at hgreatest
        · cases hgreatest
        · next hbounded =>
          obtain ⟨bound, hbound, heq⟩ := Option.map_eq_some_iff.mp hgreatest
          obtain rfl := Option.some.inj heq
          rcases h.greatest text hmax with hunbounded | ⟨n, hn, hle⟩
          · exact absurd hunbounded hbounded
          · exact hn.eq_of_bound? hbound ▸ hle

/-! ## Types -/

/-- The reader takes the complex type that the language gives the declaration. -/
theorem hasType_of_complexType? {type : TypeDefinition}
    (hclear : Clear (.ofRoot document root) c)
    (hcomplex : complexType? (.ofRoot document root) c = some t)
    (htype : HasType (.ofRoot document root) c type) : type = .complex t := by
  unfold complexType? at hcomplex
  split at hcomplex
  · next inline hinline =>
    obtain rfl := Option.some.inj hcomplex
    cases htype with
    | inlineComplex hfound => rw [Option.some.inj (hfound.symm.trans hinline)]
    | _ => simp_all
  · next hinline =>
    obtain ⟨written, hwritten, hfound⟩ := Option.bind_eq_some_iff.mp hcomplex
    have htidy := hclear.type written hwritten
    -- what the reader finds has the local name of the type; only the namespace can differ
    cases htype with
    | inlineComplex hsome => cases hinline.symm.trans hsome
    | inlineSimple _ hnone _ => cases hnone.symm.trans hwritten
    | none _ _ hnone => cases hnone.symm.trans hwritten
    | complex _ hwritten' hrefers hone _ =>
        obtain rfl := Option.some.inj (hwritten.symm.trans hwritten')
        rw [hrefers.localName_eq htidy] at hfound
        have hmem := mem_of_lastNamed?_types hfound
        rw [hone, List.mem_singleton] at hmem
        rw [hmem]
    | simple _ hwritten' hrefers hone hsimple =>
        obtain rfl := Option.some.inj (hwritten.symm.trans hwritten')
        rw [hrefers.localName_eq htidy] at hfound
        have hmem := mem_of_lastNamed?_types hfound
        obtain ⟨-, hkind, -⟩ := mem_named (mem_of_lastNamed? hfound)
        rw [hone, List.mem_singleton] at hmem
        subst hmem
        simp_all [isComponent, Element.isIn]
    | builtIn _ hwritten' hrefers =>
        obtain rfl := Option.some.inj (hwritten.symm.trans hwritten')
        rw [hrefers.localName_eq htidy] at hfound
        obtain ⟨hmem, hkind, hname⟩ := mem_named (mem_of_lastNamed? hfound)
        exact absurd hname (hclear.foreign written _ hwritten hrefers t hmem hkind)

/-! ## Contents -/

/-- Elements that fit the components one after the other are a word of the particles that stem from
the components. -/
theorem blocks_of_pieces {components : List Cursor} {pieces : List (List Element)}
    {qs : List (Particle Nat)} (hfits : ∀ p e, fits p e → Named (.ofRoot document root) p e)
    (hpieces : List.Forall₂ (fun p piece => (∀ e ∈ piece, fits p e) ∧ Occurs p piece.length)
      components pieces)
    (hstems : List.Forall₂ (Stem (.ofRoot document root)) components qs)
    (htidy : ∀ p ∈ components, Tidy p "name" ∧ Tidy p "ref") :
    Content.Blocks qs (pieces.flatten.map Element.name) := by
  induction hpieces generalizing qs with
  | nil =>
      cases hstems
      exact .nil
  | @cons p piece components pieces hpiece _ ih =>
      cases hstems with
      | @cons _ q _ qs hstem hstems =>
          obtain ⟨⟨hname, href⟩, hothers⟩ := List.forall_mem_cons.mp htidy
          obtain ⟨hleast, hgreatest⟩ := hpiece.2.within hstem.occurs
          have hnames : piece.map Element.name = List.replicate piece.length q.name := by
            refine List.eq_replicate_iff.mpr ⟨List.length_map _, ?_⟩
            intro n hn
            obtain ⟨e, he, rfl⟩ := List.mem_map.mp hn
            exact (hstem.called.eq_of_named hname href (hfits p e (hpiece.1 e he))).symm
          rw [List.flatten_cons, List.map_append, hnames]
          exact .cons hleast hgreatest (ih hstems hothers)

/-- Where everything is in the language of schemas, only the name of a component tells whether it
says something about element children. -/
theorem filter_saysNothing {cs : List Cursor}
    (huris : ∀ p ∈ cs, p.element.uri = some schemaUri) :
    cs.filter (fun p => !saysNothing p) = cs.filter (fun p => !isAside p.name) := by
  refine List.filter_congr fun p hp => ?_
  simp [saysNothing, huris p hp]

/-- A type without a compositor allows no children. -/
theorem Allows.eq_nil (hnone : compositor? none t.children = some none)
    (h : Allows fits (.complex t) es) : es = [] := by
  obtain ⟨huris, hfilter, -⟩ := filter_of_compositor? hnone
  cases h with
  | empty _ => rfl
  | composed hcompositor _ _ =>
      rw [filter_saysNothing huris] at hcompositor
      cases hfilter.trans hcompositor

/-- A type with a compositor that occurs once allows what the compositor composes. -/
theorem Allows.of_compositor (hfound : compositor? none t.children = some (some compositor))
    (honce : occurs? compositor = some (1, some 1)) (h : Allows fits (.complex t) es) :
    Composed fits compositor es := by
  obtain ⟨huris, -, -⟩ := filter_of_compositor? hfound
  have hfilter := filter_eq_of_compositor? hfound
  cases h with
  | empty hall =>
      have hmem : compositor ∈ t.children.filter (fun p => !isAside p.name) := by
        rw [hfilter]
        exact List.mem_singleton_self compositor
      obtain ⟨hchild, haside⟩ := List.mem_filter.mp hmem
      have hnothing := List.all_eq_true.mp hall compositor hchild
      simp_all [saysNothing]
  | @composed _ compositor' rounds hcompositor hoccurs hrounds =>
      rw [filter_saysNothing huris, hfilter] at hcompositor
      obtain ⟨rfl, -⟩ := List.cons.inj hcompositor
      obtain ⟨hleast, hgreatest⟩ := hoccurs.within honce
      have hlength : rounds.length = 1 := Nat.le_antisymm (hgreatest 1 rfl) hleast
      obtain ⟨es, rfl⟩ := List.length_eq_one_iff.mp hlength
      rw [List.flatten_singleton]
      exact hrounds es (List.mem_singleton_self es)

/-- A content that says what an element declaration says admits what its type allows. -/
theorem admits_of_contentAllows {declared : DeclaredContent}
    (hclear : Clear (.ofRoot document root) c)
    (hfits : ∀ p e, fits p e → Named (.ofRoot document root) p e)
    (htells : Says (.ofRoot document root) c declared)
    (h : ContentAllows (.ofRoot document root) fits c es) :
    declared.Admits (es.map Element.name) := by
  obtain ⟨type, htype, hallows⟩ := h
  unfold Says at htells
  split at htells
  · exact htells.elim
  · next hshape =>
    obtain ⟨t, ht, hnone⟩ := exists_of_shape?_empty hshape
    obtain rfl := hasType_of_complexType? hclear ht htype
    obtain rfl := hallows.eq_nil hnone
    refine ⟨[], htells ▸ .nil, ?_⟩
    split
    · rfl
    · exact .refl _
  · next ordered components hshape =>
    obtain ⟨t, compositor, ht, hfound, honce, rfl, rfl⟩ := exists_of_shape?_particles hshape
    obtain rfl := hasType_of_complexType? hclear ht htype
    obtain ⟨hordered, -, hstems⟩ := htells
    have hmem : compositor ∈ t.children.filter (fun p => !isAside p.name) := by
      rw [filter_eq_of_compositor? hfound]
      exact List.mem_singleton_self compositor
    have htidy : ∀ p ∈ compositor.children.filter (fun p => !isComponent "annotation" p),
        Tidy p "name" ∧ Tidy p "ref" := fun p hp =>
      hclear.names t compositor p ht (List.mem_filter.mp hmem).1 (List.mem_filter.mp hp).1
    have hcomponents : ∀ components, components? compositor = some components →
        components = compositor.children.filter (fun p => !isComponent "annotation" p) := by
      intro components hsome
      unfold components? at hsome
      dsimp only at hsome
      split at hsome
      · exact (Option.some.inj hsome).symm
      · cases hsome
    cases hallows.of_compositor hfound honce with
    | sequence hname hsome hpieces =>
        obtain rfl := hcomponents _ hsome
        refine ⟨_, blocks_of_pieces hfits hpieces hstems htidy, ?_⟩
        have hsequence : compositor.name = "sequence" := by
          simpa [Cursor.name] using (Bool.and_eq_true_iff.mp hname).2
        rw [hordered, if_pos (decide_eq_true hsequence)]
    | all hname hsome hpieces hperm =>
        obtain rfl := hcomponents _ hsome
        refine ⟨_, blocks_of_pieces hfits hpieces hstems htidy, ?_⟩
        have hall : compositor.name = "all" := by
          simpa [Cursor.name] using (Bool.and_eq_true_iff.mp hname).2
        rw [hordered, hall, if_neg (by decide)]
        exact hperm.map Element.name

end

end VideoCatalog.Grammar.Schema
