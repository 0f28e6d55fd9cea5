import VideoCatalog.Proofs.Schema.Soundness

/-!
# A listing by an XML Schema model spares what the schema allows

The listing of a document is made of the accounts of its reached elements, and each element-only one
of them is checked against an element declaration of the schema, the one that its declaration in the
model was entered for (`EnteredFor`). If the type of that declaration allows the children of the
element, and the reader resolves the names there as the language does, then the listing says nothing
of the element (`listing_spares_allowed`). Which declaration that is, the model decides by the local
names of the elements above. So where a parent has two declarations of one local name in different
namespaces, an element of either name may be checked against the declaration of the other, and only
what the type of that one allows is spared.

Without the condition on names it is not so. The last part shows a schema that uses the built-in
type of strings and has a complex type of that name, and writes a name with white space around it.
-/

namespace VideoCatalog.Grammar.Schema

open Xml (Cursor Document Element)

section

variable {G : Type} {document : Document} {root c : Cursor} {index : Nat}
  {compile : Compiler G} {m : Model G} {requests : List String}

/-! ## Reading through to the end -/

/-- The declaration at this position of the model of a schema document was entered for this element
declaration. -/
def EnteredFor (compile : Compiler G) (document : Document) (c : Cursor) (index : Nat) : Prop :=
  ∃ root, document.cursor? = some root ∧
    ReadFrom (declarations (.ofRoot document root) compile (depthBound root.element)) document c
      index

theorem EnteredFor.readFrom (hroot : document.cursor? = some root)
    (h : EnteredFor compile document c index) :
    ReadFrom (declarations (.ofRoot document root) compile (depthBound root.element)) document c
      index := by
  obtain ⟨root', hroot', hc⟩ := h
  obtain rfl := Option.some.inj (hroot.symm.trans hroot')
  exact hc

/-- Reading the top-level elements keeps the declarations faithful. -/
theorem keeps_declarations (hroot : document.Holds root) (compile : Compiler G) (depth : Nat) :
    Read.Keeps (Faithful document root) (declarations (.ofRoot document root) compile depth)
      (fun _ => True) := by
  refine .bind (Read.Keeps.forEach fun p hp => ?_) fun _ _ => .pure trivial
  have hholds : document.Holds p := hroot.child (List.mem_filter.mp hp).1
  exact (keeps_declaration hroot compile depth p hholds).mono fun _ _ => trivial

/-- A model that was read is what had been collected in the end. -/
theorem exists_run_of_read (hroot : document.cursor? = some root)
    (h : read compile document = .finished (some m) requests) :
    ∃ s, (declarations (.ofRoot document root) compile (depthBound root.element)).run {} =
      some (m.roots, s) ∧ m.declarations = s.declarations := by
  obtain ⟨element, helement, rfl⟩ := Option.map_eq_some_iff.mp hroot
  rw [read, helement, Option.map_some, Option.getD_some, readUpTo, hroot] at h
  dsimp only at h
  split at h
  · split at h
    · cases h
    · next found s hrun =>
      cases h
      exact ⟨s, hrun, rfl⟩
  · cases h

/-! ## The listing -/

/-- The listing of a document is made of accounts. An element-only element is checked against one
declaration, and its account is empty if the type of that declaration allows its children, whatever
it takes for a child to fit a component beyond its name, and if the names that the declaration uses
are clear to the reader. The declaration is one of the local name of the element, in whatever
namespace it declares this name. -/
theorem listing_spares_allowed (hroot : document.cursor? = some root)
    (hread : read compile document = .finished (some m) requests) {d : Diagnostics G}
    {top : Element} {messages : List String} (hexplain : m.explain d (some top) = some messages) :
    messages = (m.reached top).flatMap (m.account d) ∧
      ∀ o ∈ m.reached top, ∀ content, m.body o.index = .children content →
        (∃! c, EnteredFor compile document c o.index) ∧
          ∀ c, EnteredFor compile document c o.index → Clear (.ofRoot document root) c →
            ∀ fits : Cursor → Element → Prop,
              (∀ p e, fits p e → Named (.ofRoot document root) p e) →
                ContentAllows (.ofRoot document root) fits c o.element.children →
                  m.account d o = [] := by
  refine ⟨m.eq_flatMap_account_of_explain hexplain, fun o _ content hbody => ?_⟩
  obtain ⟨s, hrun, hm⟩ := exists_run_of_read hroot hread
  have hholds : document.Holds root := by
    obtain ⟨element, helement, rfl⟩ := Option.map_eq_some_iff.mp hroot
    exact Document.holds_root helement
  have hadmits : ∀ c declared es, document.Holds c → Says (.ofRoot document root) c declared →
      (Clear (.ofRoot document root) c ∧
        ∃ fits : Cursor → Element → Prop, (∀ p e, fits p e → Named (.ofRoot document root) p e) ∧
          ContentAllows (.ofRoot document root) fits c es) →
      declared.Admits (es.map Element.name) := by
    rintro c declared es - htells ⟨hclear, fits, hfits, hallows⟩
    exact admits_of_contentAllows hclear hfits htells hallows
  obtain ⟨⟨c, hc, honly⟩, hspared⟩ :=
    Recorded.account_eq_nil (keeps_declarations hholds compile _) hrun hm hadmits d hbody
  refine ⟨⟨c, ⟨root, hroot, hc⟩, fun c' hc' => honly c' (hc'.readFrom hroot)⟩, ?_⟩
  intro c hc hclear fits hfits hallows
  exact hspared c (hc.readFrom hroot) ⟨hclear, fits, hfits, hallows⟩

end

/-! ## Schemas written down -/

/-- A component of a schema. -/
def component (name : String) (attributes : List (String × String)) (children : List Element) :
    Element :=
  .mk
    { name := name
      uri := some schemaUri
      qualifier := some "xs"
      attributes := attributes.map (fun a => { name := a.1, value := a.2 }) }
    "" children

/-- A schema with these components. -/
def schemaOf (children : List Element) : Element :=
  .mk
    { name := "schema"
      uri := some schemaUri
      qualifier := some "xs"
      declarations := [{ qualifier := some "xs", uri := schemaUri }] }
    "" children

/-- A complex type of a sequence of these components. -/
def sequenceOf (attributes : List (String × String)) (children : List Element) : Element :=
  component "complexType" attributes [component "sequence" [] children]

/-- A schema document, whose elements are all written as nothing. -/
def documentOf (children : List Element) : Document where
  root := some (schemaOf children)
  serialize := fun _ => some ""

/-- A standalone schema of such a document, which has only this text of its own. -/
def standaloneOf (text : String) : String :=
  "<xs:schema xmlns:xs=\"" ++ schemaUri ++ "\">" ++ text ++ "</xs:schema>"

theorem occurs_once {c : Cursor} (hmin : c.element.attribute? "minOccurs" = none)
    (hmax : c.element.attribute? "maxOccurs" = none) : Occurs c 1 where
  least text h := by cases hmin.symm.trans h
  leastDefault _ := Nat.le_refl 1
  greatest text h := by cases hmax.symm.trans h
  greatestDefault _ := Nat.le_refl 1

/-!
## A pair

A pair has a first member, which holds one `x` or more, and may have a second member, by reference.
In `hollow` the first member is empty.
-/

namespace Pair

def first : Element :=
  component "element" [("name", "first")]
    [sequenceOf []
      [component "element" [("name", "x"), ("type", "xs:int"), ("maxOccurs", "unbounded")] []]]

def second : Element :=
  component "element" [("ref", "second"), ("minOccurs", "0")] []

def members : Element :=
  component "sequence" [] [first, second]

def pairType : Element :=
  component "complexType" [("name", "pairType")] [members]

def components : List Element :=
  [component "element" [("name", "pair"), ("type", "pairType")] [],
    component "element" [("name", "second"), ("type", "xs:string")] [], pairType]

def document : Document :=
  documentOf components

def root : Cursor where
  element := schemaOf components

def pair : Cursor :=
  below root 0 (component "element" [("name", "pair"), ("type", "pairType")] [])

def definition : Cursor :=
  below root 2 pairType

def sequence : Cursor :=
  below definition 0 members

def hollow : Element :=
  plain "pair" [plain "first" [], plain "second" []]

def model : Model Nat where
  declarations :=
    [{ name := "pair"
       body := .children
         { ordered := true, particles := [⟨1, "first", 1, some 1⟩, ⟨3, "second", 0, some 1⟩] } },
     { name := "first"
       body := .children { ordered := true, particles := [⟨2, "x", 1, none⟩] } },
     { name := "x", body := .isolated 0 },
     { name := "second", body := .isolated 1 }]
  roots := [0, 3]

theorem clear_pair : Clear (.ofRoot document root) pair where
  type := by
    intro written hwritten
    cases hwritten
    decide
  foreign := by
    intro written name hwritten hrefers
    cases hwritten
    obtain ⟨huri, -⟩ := Xml.Expands.eq_of_not_mem hrefers (by decide)
    exact absurd huri (by decide)
  names := by
    intro t compositor p ht hcompositor hp
    have htype : complexType? (.ofRoot document root) pair = some definition := rfl
    obtain rfl := Option.some.inj (htype.symm.trans ht)
    have hchildren : definition.children = [sequence] := rfl
    rw [hchildren, List.mem_singleton] at hcompositor
    subst hcompositor
    have hmembers : sequence.children = [below sequence 0 first, below sequence 1 second] := rfl
    rw [hmembers] at hp
    rcases List.mem_pair.mp hp with rfl | rfl
    · exact ⟨fun written h => by cases h; decide, fun written h => by cases h⟩
    · exact ⟨fun written h => (by cases h), fun written h => by cases h; decide⟩

theorem contentAllows_hollow :
    ContentAllows (.ofRoot document root) (Named (.ofRoot document root)) pair
      hollow.children := by
  have hrefers : RefersTo pair "pairType" (targetNamespace (.ofRoot document root)) "pairType" :=
    .plain (by decide)
  have htypes : typesNamed (.ofRoot document root) "pairType" = [definition] := rfl
  have htype : HasType (.ofRoot document root) pair (.complex definition) :=
    .complex rfl rfl hrefers htypes rfl
  have hfirst : Named (.ofRoot document root) (below sequence 0 first) (plain "first" []) :=
    .declared rfl rfl (by decide) (by decide)
  have hsecond : Named (.ofRoot document root) (below sequence 1 second) (plain "second" []) :=
    .referred rfl (.plain (by decide)) rfl rfl (by decide)
  have hmany : Occurs (below sequence 1 second) 1 :=
    { least := fun text h => by
        cases h
        exact ⟨0, ⟨['0'], .inl (by decide), by decide⟩, Nat.zero_le 1⟩
      leastDefault := fun _ => Nat.le_refl 1
      greatest := fun text h => by cases h
      greatestDefault := fun _ => Nat.le_refl 1 }
  have hround : Composed (Named (.ofRoot document root)) sequence hollow.children := by
    refine @Composed.sequence _ _ [below sequence 0 first, below sequence 1 second]
      [[plain "first" []], [plain "second" []]] rfl rfl ?_
    exact .cons ⟨List.forall_mem_singleton.mpr hfirst, occurs_once rfl rfl⟩
      (.cons ⟨List.forall_mem_singleton.mpr hsecond, hmany⟩ .nil)
  refine ⟨_, htype, @Allows.composed _ _ sequence [hollow.children] rfl ?_ ?_⟩
  · exact occurs_once rfl rfl
  · exact List.forall_mem_singleton.mpr hround

/-- The empty first member has a violation of its own, the pair has none. -/
theorem listing_spares_allowed_hollow :
    model.explain lenient (some hollow) = some ["Element 'first': Missing child element 'x'."] ∧
      model.account lenient ⟨[], hollow, 0⟩ = [] := by
  have hread : read numbering document = .finished (some model)
      [standaloneOf "<xs:element name=\"x\" type=\"xs:int\"/>", standaloneOf ""] := by
    decide +kernel
  have hexplain : model.explain lenient (some hollow) =
      some ["Element 'first': Missing child element 'x'."] := by
    decide +kernel
  have hentered : EnteredFor numbering document pair 0 :=
    ⟨root, rfl, .of_run rfl (by decide +kernel)⟩
  have hroot : document.cursor? = some root := rfl
  obtain ⟨-, haccounts⟩ := listing_spares_allowed hroot hread hexplain
  refine ⟨hexplain, ?_⟩
  exact (haccounts ⟨[], hollow, 0⟩ (.head _) _ rfl).2 pair hentered clear_pair _
    (fun _ _ h => h) contentAllows_hollow

end Pair

/-!
## A complex type with the name of a built-in one, and a name among blanks

A pair has a first member, which is a string, and a second one, whose name stands among blanks. The
schema has a complex type named `string` too, which nothing uses. In `leaves` both members are
empty.
-/

namespace Strings

def first : Element :=
  component "element" [("name", "first"), ("type", "xs:string")] []

def second : Element :=
  component "element" [("name", " second "), ("type", "xs:int")] []

def members : Element :=
  component "sequence" [] [first, second]

def pairType : Element :=
  component "complexType" [] [members]

def pairElement : Element :=
  component "element" [("name", "pair")] [pairType]

def components : List Element :=
  [pairElement,
    sequenceOf [("name", "string")]
      [component "element" [("name", "x"), ("type", "xs:int")] []]]

def document : Document :=
  documentOf components

def root : Cursor where
  element := schemaOf components

def pair : Cursor :=
  below root 0 pairElement

def sequence : Cursor :=
  below (below pair 0 pairType) 0 members

def leaves : Element :=
  plain "pair" [plain "first" [], plain "second" []]

/-- What is read of the schema: a first member with the content of the complex type, and a second
one with blanks in its name. -/
def model : Model Nat where
  declarations :=
    [{ name := "pair"
       body := .children
         { ordered := true
           particles := [⟨1, "first", 1, some 1⟩, ⟨3, " second ", 1, some 1⟩] } },
     { name := "first"
       body := .children { ordered := true, particles := [⟨2, "x", 1, some 1⟩] } },
     { name := "x", body := .isolated 0 },
     { name := " second ", body := .isolated 1 }]
  roots := [0]

theorem contentAllows_leaves :
    ContentAllows (.ofRoot document root) (Named (.ofRoot document root)) pair
      leaves.children := by
  have htype : HasType (.ofRoot document root) pair (.complex (below pair 0 pairType)) :=
    .inlineComplex rfl
  have hfirst : Named (.ofRoot document root) (below sequence 0 first) (plain "first" []) :=
    .declared rfl rfl (by decide) (by decide)
  have hsecond : Named (.ofRoot document root) (below sequence 1 second) (plain "second" []) :=
    .declared rfl rfl (by decide) (by decide)
  have hround : Composed (Named (.ofRoot document root)) sequence leaves.children := by
    refine @Composed.sequence _ _ [below sequence 0 first, below sequence 1 second]
      [[plain "first" []], [plain "second" []]] rfl rfl ?_
    exact .cons ⟨List.forall_mem_singleton.mpr hfirst, occurs_once rfl rfl⟩
      (.cons ⟨List.forall_mem_singleton.mpr hsecond, occurs_once rfl rfl⟩ .nil)
  refine ⟨_, htype, @Allows.composed _ _ sequence [leaves.children] rfl ?_ ?_⟩
  · exact occurs_once rfl rfl
  · exact List.forall_mem_singleton.mpr hround

theorem contentAllows_first :
    ContentAllows (.ofRoot document root) (Named (.ofRoot document root))
      (below sequence 0 first) [] := by
  have hrefers : RefersTo (below sequence 0 first) "xs:string" schemaUri "string" := by
    have hwritten : Text.trim "xs:string" = Xml.qualified (some "xs") "string" := by decide
    rw [RefersTo, hwritten]
    exact .qualified (d := { qualifier := some "xs", uri := schemaUri }) (by decide) (by decide)
      (.head _) rfl
  have htype : HasType (.ofRoot document root) (below sequence 0 first) .simple :=
    .builtIn rfl rfl hrefers
  exact ⟨_, htype, .simple⟩

/-- A document whose elements all have the children that their types allow has three violations in
its listing: the first member is said to miss what the complex type asks for, and the pair not to
know a second member and to miss one with blanks in its name. -/
theorem listing_faults_allowed :
    read numbering document = .finished (some model)
        [standaloneOf "<xs:element name=\"x\" type=\"xs:int\"/>",
          standaloneOf "<xs:element name=\" second \" type=\"xs:int\"/>"] ∧
      EnteredFor numbering document pair 0 ∧
      ContentAllows (.ofRoot document root) (Named (.ofRoot document root)) pair
        leaves.children ∧
      EnteredFor numbering document (below sequence 0 first) 1 ∧
      ContentAllows (.ofRoot document root) (Named (.ofRoot document root))
        (below sequence 0 first) [] ∧
      model.explain lenient (some leaves) =
        some ["Element 'second': This element is not expected in 'pair'.",
          "Element 'pair': Missing child element ' second '.",
          "Element 'first': Missing child element 'x'."] ∧
      model.account lenient ⟨[], leaves, 0⟩ =
        ["Element 'second': This element is not expected in 'pair'.",
          "Element 'pair': Missing child element ' second '."] ∧
      model.account lenient ⟨[0], plain "first" [], 1⟩ =
        ["Element 'first': Missing child element 'x'."] := by
  refine ⟨by decide +kernel, ?_, contentAllows_leaves, ?_, contentAllows_first, by decide +kernel,
    by decide +kernel, by decide +kernel⟩
  · exact ⟨root, rfl, .of_run rfl (by decide +kernel)⟩
  · exact ⟨root, rfl, .of_run rfl (by decide +kernel)⟩

end Strings

end VideoCatalog.Grammar.Schema
