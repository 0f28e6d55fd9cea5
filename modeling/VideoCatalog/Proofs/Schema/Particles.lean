import VideoCatalog.Grammar.Schema
import VideoCatalog.Proofs.Grammar.Reading

/-!
# What the reader makes of an element declaration

The reader goes by the local names of references and types. `Called` is the name that it has for an
element component, which for a reference is the name of the top-level element that it finds, and
`Stem` the particle that it makes of the component. The content of a declaration that is read as
element-only is made of the element components of its shape, one particle each (`Says`).

`keeps_declaration` is the induction over the depth of the reader; with it all declarations of a
schema say what the element declarations say that they come from.
-/

namespace VideoCatalog.Grammar.Schema

open Xml (Cursor Document)

variable {G : Type} {document : Document} {source : Source} {root c p t : Cursor} {name : String}

/-! ## Particles -/

/-- The name that an element declaration gives, as it is written. -/
def writtenName (c : Cursor) : String :=
  (c.element.attribute? "name").getD ""

/-- The name that the reader has for an element component. -/
inductive Called (source : Source) : Cursor → String → Prop
  | declared {c : Cursor} : c.element.attribute? "ref" = none → Called source c (writtenName c)
  | undefined {c : Cursor} {reference : String} : c.element.attribute? "ref" = some reference →
      lastNamed? (Xml.localName reference) source.elements = none →
      Called source c (Xml.localName reference)
  | referred {c target : Cursor} {reference name : String} :
      c.element.attribute? "ref" = some reference →
      lastNamed? (Xml.localName reference) source.elements = some target →
      Called source target name → Called source c name

/-- The particle stems from the element component. -/
structure Stem (source : Source) (c : Cursor) (q : Particle Nat) : Prop where
  called : Called source c q.name
  occurs : occurs? c = some (q.min, q.max)

/-- The content says what the element declaration says. -/
def Says (source : Source) (c : Cursor) (content : DeclaredContent) : Prop :=
  match shape? source c with
  | none => False
  | some .empty => content.particles = []
  | some (.particles ordered components) =>
    content.ordered = ordered ∧
      (∀ p ∈ components, isComponent "annotation" p = true ∨ isComponent "element" p = true) ∧
      List.Forall₂ (Stem source) (components.filter (fun p => !isComponent "annotation" p))
        content.particles

/-! ## The cursors of the reader stand in the document -/

/-- A top-level component that the reader finds by its name is one of the schema, and has it. -/
theorem mem_named {kind : String} (h : (name, c) ∈ named kind root) :
    c ∈ root.children ∧ isComponent kind c = true ∧ c.element.attribute? "name" = some name := by
  obtain ⟨component, hcomponent, hentry⟩ := List.mem_filterMap.mp h
  obtain ⟨written, hwritten, heq⟩ := Option.map_eq_some_iff.mp hentry
  obtain ⟨rfl, rfl⟩ := Prod.mk.inj heq
  obtain ⟨hmem, hkind⟩ := List.mem_filter.mp hcomponent
  exact ⟨hmem, hkind, hwritten⟩

theorem holds_of_complexType? (hroot : document.Holds root) (hc : document.Holds c)
    (h : complexType? (.ofRoot document root) c = some t) : document.Holds t := by
  unfold complexType? at h
  split at h
  · next inline hinline =>
    obtain rfl := Option.some.inj h
    exact hc.child (List.mem_of_find?_eq_some hinline)
  · obtain ⟨written, -, hnamed⟩ := Option.bind_eq_some_iff.mp h
    exact hroot.child (mem_named (mem_of_lastNamed? hnamed)).1

/-- The one compositor of a complex type, if it has one, is what remains when all components that
say nothing about element children are left out. -/
theorem filter_of_compositor? {found result : Option Cursor} {cs : List Cursor}
    (h : compositor? found cs = some result) :
    (∀ p ∈ cs, p.element.uri = some schemaUri) ∧
      result.toList = found.toList ++ cs.filter (fun p => !isAside p.name) ∧
      ∀ p ∈ cs, isAside p.name = false → p.name = "sequence" ∨ p.name = "all" := by
  induction cs generalizing found with
  | nil =>
      obtain rfl := Option.some.inj h
      simp
  | cons p ps ih =>
      unfold compositor? at h
      split at h
      · cases h
      · next huri =>
        have huri : p.element.uri = some schemaUri := by simpa using huri
        split at h
        · next haside =>
          obtain ⟨huris, hlist, hnames⟩ := ih h
          refine ⟨List.forall_mem_cons.mpr ⟨huri, huris⟩, ?_, ?_⟩
          · rw [hlist, List.filter_cons_of_neg (by simp [haside])]
          · refine List.forall_mem_cons.mpr ⟨fun hnot => ?_, hnames⟩
            rw [haside] at hnot
            cases hnot
        · next haside =>
          split at h
          · next hcompositor =>
            obtain ⟨hname, hfound⟩ := Bool.and_eq_true_iff.mp hcompositor
            obtain rfl := Option.isNone_iff_eq_none.mp hfound
            obtain ⟨huris, hlist, hnames⟩ := ih h
            refine ⟨List.forall_mem_cons.mpr ⟨huri, huris⟩, ?_, ?_⟩
            · rw [hlist, List.filter_cons_of_pos (by simpa using haside)]
              rfl
            · exact List.forall_mem_cons.mpr ⟨fun _ => by simpa using hname, hnames⟩
          · cases h

/-- Where there are no element components, the complex type has no compositor. -/
theorem exists_of_shape?_empty (h : shape? source c = some .empty) :
    ∃ t, complexType? source c = some t ∧ compositor? none t.children = some none := by
  obtain ⟨t, ht, hrest⟩ := Option.bind_eq_some_iff.mp h
  split at hrest
  · cases hrest
  · obtain ⟨found, hfound, hrest⟩ := Option.bind_eq_some_iff.mp hrest
    cases found with
    | none => exact ⟨t, ht, hfound⟩
    | some compositor =>
        obtain ⟨times, -, hrest⟩ := Option.bind_eq_some_iff.mp hrest
        split at hrest <;> cases hrest

/-- The element components are those of the compositor of the complex type, which occurs once. -/
theorem exists_of_shape?_particles {ordered : Bool} {components : List Cursor}
    (h : shape? source c = some (.particles ordered components)) :
    ∃ t compositor, complexType? source c = some t ∧
      compositor? none t.children = some (some compositor) ∧
      occurs? compositor = some (1, some 1) ∧
      ordered = decide (compositor.name = "sequence") ∧ components = compositor.children := by
  obtain ⟨t, ht, hrest⟩ := Option.bind_eq_some_iff.mp h
  split at hrest
  · cases hrest
  · obtain ⟨found, hfound, hrest⟩ := Option.bind_eq_some_iff.mp hrest
    cases found with
    | none => cases hrest
    | some compositor =>
        obtain ⟨times, htimes, hrest⟩ := Option.bind_eq_some_iff.mp hrest
        split at hrest
        · cases hrest
        · next honce =>
          obtain ⟨rfl, rfl⟩ := Shape.particles.inj (Option.some.inj hrest)
          exact ⟨t, compositor, ht, hfound, not_not.mp honce ▸ htimes, rfl, rfl⟩

/-- The compositor is the one component of a complex type that says something about element
children. -/
theorem filter_eq_of_compositor? {t compositor : Cursor}
    (h : compositor? none t.children = some (some compositor)) :
    t.children.filter (fun p => !isAside p.name) = [compositor] :=
  (filter_of_compositor? h).2.1.symm

theorem holds_of_shape? (hroot : document.Holds root) (hc : document.Holds c) {ordered : Bool}
    {components : List Cursor}
    (h : shape? (.ofRoot document root) c = some (.particles ordered components))
    (hp : p ∈ components) : document.Holds p := by
  obtain ⟨t, compositor, ht, hfound, -, -, rfl⟩ := exists_of_shape?_particles h
  have hmem : compositor ∈ t.children.filter (fun p => !isAside p.name) := by
    rw [filter_eq_of_compositor? hfound]
    exact List.mem_singleton_self compositor
  exact ((holds_of_complexType? hroot hc ht).child (List.mem_filter.mp hmem).1).child hp

/-! ## The reader -/

section Steps

variable {I : Collected G → Prop} {declare : Cursor → Read G (Nat × String)}

/-- What is read of a component stems from it; annotations are passed over. -/
theorem keeps_particle
    (hdeclare : Read.Keeps I (declare p) (fun result => Called source p result.2)) :
    Read.Keeps I (particle declare p) (fun o => ∀ found, o = some found →
      (isComponent "annotation" p = true ∧ found = none) ∨
        isComponent "annotation" p = false ∧ isComponent "element" p = true ∧
          ∃ q, found = some q ∧ Stem source p q) := by
  unfold particle
  split
  · next hnote =>
    refine .pure fun found h => .inl ⟨hnote, ?_⟩
    exact (Option.some.inj h).symm
  · next hnote =>
    have hnote : isComponent "annotation" p = false := Bool.not_eq_true _ ▸ hnote
    split
    · exact .pure fun found h => by cases h
    · next helement =>
      have helement : isComponent "element" p = true := by simpa using helement
      cases hoccurs : occurs? p with
      | none => exact .pure fun found h => by cases h
      | some times =>
          refine .bind hdeclare fun result hcalled => .pure fun found h => ?_
          obtain rfl := Option.some.inj h
          exact .inr ⟨hnote, helement, _, rfl, hcalled, hoccurs⟩

/-- The results for all components, with the annotations left out. -/
theorem forall₂_of_found {components : List Cursor} {found : List (Option (Particle Nat))}
    (h : List.Forall₂ (fun p o =>
      (isComponent "annotation" p = true ∧ o = none) ∨
        isComponent "annotation" p = false ∧ isComponent "element" p = true ∧
          ∃ q, o = some q ∧ Stem source p q) components found) :
    (∀ p ∈ components, isComponent "annotation" p = true ∨ isComponent "element" p = true) ∧
      List.Forall₂ (Stem source) (components.filter (fun p => !isComponent "annotation" p))
        (found.filterMap id) := by
  induction h with
  | nil => exact ⟨fun _ hp => absurd hp List.not_mem_nil, .nil⟩
  | cons hfirst _ ih =>
      obtain ⟨hkinds, hstems⟩ := ih
      rcases hfirst with ⟨hnote, rfl⟩ | ⟨hnote, helement, q, rfl, hstem⟩
      · refine ⟨List.forall_mem_cons.mpr ⟨.inl hnote, hkinds⟩, ?_⟩
        rw [List.filter_cons_of_neg (by simp [hnote])]
        exact hstems
      · refine ⟨List.forall_mem_cons.mpr ⟨.inr helement, hkinds⟩, ?_⟩
        rw [List.filter_cons_of_pos (by simp [hnote])]
        exact .cons hstem hstems

/-- What is read of the content of an element declaration says what that says. -/
theorem keeps_content (hroot : document.Holds root) (hc : document.Holds c)
    (hdeclare : ∀ p, document.Holds p →
      Read.Keeps I (declare p) (fun result => Called (.ofRoot document root) p result.2)) :
    Read.Keeps I (content (.ofRoot document root) declare c)
      (fun o => ∀ content, o = some content → Says (.ofRoot document root) c content) := by
  unfold content Says
  cases hshape : shape? (.ofRoot document root) c with
  | none => exact .pure fun content h => by cases h
  | some shape =>
      cases shape with
      | empty =>
          refine .pure fun content h => ?_
          obtain rfl := Option.some.inj h
          rfl
      | particles ordered components =>
          refine .bind (Read.Keeps.allOrNone fun p hp =>
            keeps_particle (hdeclare p (holds_of_shape? hroot hc hshape hp))) fun o ho => ?_
          cases o with
          | none => exact .pure fun content h => by cases h
          | some found =>
              refine .pure fun content h => ?_
              obtain rfl := Option.some.inj h
              exact ⟨rfl, forall₂_of_found (ho found rfl)⟩

end Steps

/-- The declarations collected so far say what the element declarations say that they come from. -/
abbrev Faithful (document : Document) (root : Cursor) : Collected G → Prop :=
  Recorded document writtenName (Says (.ofRoot document root))

theorem declaration_succ (source : Source) (compile : Compiler G) (depth : Nat) (c : Cursor)
    (href : c.element.attribute? "ref" = none) :
    declaration source compile (depth + 1) c =
      Read.declared compile c.path (writtenName c) (standalone? source c (writtenName c))
        (content source (declaration source compile depth) c) := by
  rw [declaration, href, Read.declared]
  refine bind_congr fun known => ?_
  cases known with
  | some index => rfl
  | none =>
      refine bind_congr fun index => bind_congr fun found => ?_
      cases found <;> rfl

/-- Reading an element declaration keeps the declarations faithful. -/
theorem keeps_declaration (hroot : document.Holds root) (compile : Compiler G) :
    ∀ (depth : Nat) (c : Cursor), document.Holds c →
      Read.Keeps (Faithful document root)
        (declaration (.ofRoot document root) compile depth c)
        (fun result => Called (.ofRoot document root) c result.2)
  | 0, _, _ => .tooDeep
  | depth + 1, c, hc => by
      cases href : c.element.attribute? "ref" with
      | none =>
          rw [declaration_succ _ _ _ _ href]
          have hcontent := keeps_content hroot hc (keeps_declaration hroot compile depth)
          refine (Read.Keeps.declared hc compile _ hcontent).mono fun result hname => ?_
          exact hname ▸ .declared href
      | some reference =>
          -- a reference enters nothing of its own unless it is to nothing
          rw [declaration, href]
          dsimp only
          cases htarget : lastNamed? (Xml.localName reference)
              (Source.ofRoot document root).elements with
          | none =>
              refine .bind (Read.Keeps.enterUndefined _) fun index _ => .pure ?_
              exact .undefined href htarget
          | some target =>
              have hholds : document.Holds target :=
                hroot.child (mem_named (mem_of_lastNamed? htarget)).1
              refine (keeps_declaration hroot compile depth target hholds).mono ?_
              exact fun result hcalled => .referred href htarget hcalled

end VideoCatalog.Grammar.Schema
