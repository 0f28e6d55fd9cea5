import Mathlib.Data.List.Perm.Subperm
import Mathlib.Logic.Relation
import VideoCatalog.Proofs.Grammar.Ending
import VideoCatalog.Proofs.Schema.Listing

/-!
# When reading a schema comes to an end

An element component that refers to a top-level element is read as that element. The reader goes
there at once: a reference makes no entry of its own, and whether the component has one is only
looked up when it is no reference. So the entries close circles of types, but not of references.
Where references of top-level elements come round in a circle, no depth is enough
(`neverEnds_of_circle`).

Everything else ends (`reading_ends_iff`). The measure is the number of places without an entry and,
between two entries, the number of references that are still to be followed (`Settles`); without a
circle these are at most as many as there are top-level elements (`exists_settles`).
-/

namespace VideoCatalog.Grammar.Schema

open Xml (Cursor Document Element)

section

variable {G : Type} {document : Document} {source : Source} {root c target : Cursor}
  {n k depth : Nat} {compile : Compiler G}

/-! ## References -/

/-- The component refers to this top-level element. -/
def LeadsTo (source : Source) (c target : Cursor) : Prop :=
  ∃ reference, c.element.attribute? "ref" = some reference ∧
    lastNamed? (Xml.localName reference) source.elements = some target

/-- From the component on there are this many references to follow. -/
inductive Settles (source : Source) : Cursor → Nat → Prop
  | here {c : Cursor} : (∀ target, ¬LeadsTo source c target) → Settles source c 0
  | step {c target : Cursor} {k : Nat} : LeadsTo source c target → Settles source target k →
      Settles source c (k + 1)

theorem LeadsTo.unique {target' : Cursor} (h : LeadsTo source c target)
    (h' : LeadsTo source c target') : target = target' := by
  obtain ⟨reference, href, htarget⟩ := h
  obtain ⟨reference', href', htarget'⟩ := h'
  obtain rfl := Option.some.inj (href.symm.trans href')
  exact Option.some.inj (htarget.symm.trans htarget')

theorem LeadsTo.mem_targets (h : LeadsTo source c target) :
    target ∈ source.elements.map Prod.snd := by
  obtain ⟨reference, -, htarget⟩ := h
  exact List.mem_map.mpr ⟨_, mem_of_lastNamed? htarget, rfl⟩

/-- What is referred to is a top-level element of the schema. -/
theorem LeadsTo.mem_children (h : LeadsTo (.ofRoot document root) c target) :
    target ∈ root.children.filter (isComponent "element") := by
  obtain ⟨reference, -, htarget⟩ := h
  obtain ⟨hmem, hkind, -⟩ := mem_named (mem_of_lastNamed? htarget)
  exact List.mem_filter.mpr ⟨hmem, hkind⟩

/-- These top-level elements are distinct and lie on the way that has led to `c`. -/
structure Visited (source : Source) (visited : List Cursor) (c : Cursor) : Prop where
  nodup : visited.Nodup
  subset : visited ⊆ source.elements.map Prod.snd
  way : ∀ v ∈ visited, Relation.ReflTransGen (LeadsTo source) v c

namespace Visited

variable {visited : List Cursor}

theorem start (source : Source) (c : Cursor) : Visited source [] c where
  nodup := List.nodup_nil
  subset := List.nil_subset _
  way _ hv := absurd hv List.not_mem_nil

theorem length_le (h : Visited source visited c) : visited.length ≤ source.elements.length :=
  List.length_map Prod.snd ▸ (h.nodup.subperm h.subset).length_le

/-- Where there is no circle, the next element has not been visited. -/
theorem step (h : Visited source visited c)
    (hcircle : ∀ c, ¬Relation.TransGen (LeadsTo source) c c) (htarget : LeadsTo source c target) :
    Visited source (target :: visited) target where
  nodup := List.nodup_cons.mpr
    ⟨fun hmem => hcircle target (.tail' (h.way target hmem) htarget), h.nodup⟩
  subset := List.cons_subset.mpr ⟨htarget.mem_targets, h.subset⟩
  way := List.forall_mem_cons.mpr ⟨.refl, fun v hv => (h.way v hv).tail htarget⟩

end Visited

theorem exists_settles_of_visited (hcircle : ∀ c, ¬Relation.TransGen (LeadsTo source) c c)
    {visited : List Cursor} (hvisited : Visited source visited c)
    (hlength : source.elements.length ≤ visited.length + n) : ∃ k ≤ n, Settles source c k := by
  induction n generalizing visited c with
  | zero =>
      refine ⟨0, Nat.le_refl 0, .here fun target htarget => ?_⟩
      -- all top-level elements have been visited, and this would be one more
      have hle := (hvisited.step hcircle htarget).length_le
      rw [List.length_cons] at hle
      omega
  | succ n ih =>
      by_cases hnext : ∃ target, LeadsTo source c target
      · obtain ⟨target, htarget⟩ := hnext
        obtain ⟨k, hk, hsettles⟩ := ih (hvisited.step hcircle htarget)
          (by rw [List.length_cons]; omega)
        exact ⟨k + 1, Nat.succ_le_succ hk, .step htarget hsettles⟩
      · exact ⟨0, Nat.zero_le _, .here fun target htarget => hnext ⟨target, htarget⟩⟩

/-- Where no references lead back to where they start, following them comes to an end. -/
theorem exists_settles (hcircle : ∀ c, ¬Relation.TransGen (LeadsTo source) c c) (c : Cursor) :
    ∃ k ≤ source.elements.length, Settles source c k :=
  exists_settles_of_visited hcircle (.start source c) (Nat.le_add_left _ _)

/-! ## One declaration -/

theorem declaration_of_leadsTo (h : LeadsTo source c target) (compile : Compiler G)
    (depth : Nat) :
    declaration source compile (depth + 1) c = declaration source compile depth target := by
  obtain ⟨reference, href, htarget⟩ := h
  rw [declaration, href]
  dsimp only
  rw [htarget]

theorem declaration_of_undefined {reference : String}
    (href : c.element.attribute? "ref" = some reference)
    (hnone : lastNamed? (Xml.localName reference) source.elements = none)
    (compile : Compiler G) (depth : Nat) :
    declaration source compile (depth + 1) c =
      (do
        let index ← Read.enterUndefined (Xml.localName reference)
        pure (index, Xml.localName reference)) := by
  rw [declaration, href]
  dsimp only
  rw [hnone]

/-- A component is no reference, a reference to nothing, or one that leads somewhere. -/
theorem reference_cases (source : Source) (c : Cursor) :
    c.element.attribute? "ref" = none ∨
      (∃ reference, c.element.attribute? "ref" = some reference ∧
        lastNamed? (Xml.localName reference) source.elements = none) ∨
      ∃ target, LeadsTo source c target := by
  cases href : c.element.attribute? "ref" with
  | none => exact .inl rfl
  | some reference =>
      cases htarget : lastNamed? (Xml.localName reference) source.elements with
      | none => exact .inr (.inl ⟨reference, rfl, htarget⟩)
      | some target => exact .inr (.inr ⟨target, reference, href, htarget⟩)

/-! ## Deeper readers -/

theorem extends_particle {declare declare' : Cursor → Read G (Nat × String)}
    (h : ∀ p, Read.Extends (declare' p) (declare p)) (p : Cursor) :
    Read.Extends (particle declare' p) (particle declare p) := by
  unfold particle
  split
  · exact .refl _
  · split
    · exact .refl _
    · cases occurs? p with
      | none => exact .refl _
      | some times => exact .bind (h p) fun _ => .refl _

theorem extends_content {declare declare' : Cursor → Read G (Nat × String)}
    (h : ∀ p, Read.Extends (declare' p) (declare p)) (c : Cursor) :
    Read.Extends (content source declare' c) (content source declare c) := by
  unfold content
  cases shape? source c with
  | none => exact .refl _
  | some shape =>
      cases shape with
      | empty => exact .refl _
      | particles ordered components =>
          exact .bind (.allOrNone (extends_particle h) components) fun _ => .refl _

/-- What is read of a declaration at one depth is read at any greater one. -/
theorem extends_declaration (source : Source) (compile : Compiler G) :
    ∀ {depth depth' : Nat}, depth ≤ depth' → ∀ c,
      Read.Extends (declaration source compile depth' c) (declaration source compile depth c)
  | 0, _, _, _ => .tooDeep
  | depth + 1, depth' + 1, hle, c => by
      have hdeeper := extends_declaration source compile (Nat.le_of_succ_le_succ hle)
      rcases reference_cases source c with href | ⟨reference, href, hnone⟩ | ⟨target, htarget⟩
      · rw [declaration_succ _ _ _ _ href, declaration_succ _ _ _ _ href]
        exact .declared (extends_content hdeeper c) compile _ _ _
      · rw [declaration_of_undefined href hnone, declaration_of_undefined href hnone]
        exact .refl _
      · rw [declaration_of_leadsTo htarget, declaration_of_leadsTo htarget]
        exact hdeeper target

theorem extends_declarations (source : Source) (compile : Compiler G) {depth' : Nat}
    (hle : depth ≤ depth') :
    Read.Extends (declarations source compile depth') (declarations source compile depth) :=
  .bind (.forEach (extends_declaration source compile hle) _) fun _ => .refl _

/-! ## Schemas without a circle -/

section Steps

variable {declare : Cursor → Read G (Nat × String)}

theorem ends_particle {p : Cursor} (h : Read.Ends document n (declare p)) :
    Read.Ends document n (particle declare p) := by
  unfold particle
  split
  · exact .pure _
  · split
    · exact .pure _
    · cases occurs? p with
      | none => exact .pure _
      | some times => exact .bind h fun _ => .pure _

theorem ends_content (hroot : document.Holds root) (hc : document.Holds c)
    (h : ∀ p, document.Holds p → Read.Ends document n (declare p)) :
    Read.Ends document n (content (.ofRoot document root) declare c) := by
  unfold content
  cases hshape : shape? (.ofRoot document root) c with
  | none => exact .pure _
  | some shape =>
      cases shape with
      | empty => exact .pure _
      | particles ordered components =>
          refine .bind (.allOrNone fun p hp =>
            ends_particle (h p (holds_of_shape? hroot hc hshape hp))) fun found => ?_
          cases found with
          | none => exact .pure _
          | some found => exact .pure _

end Steps

/-- Reading a declaration ends at any depth with room for the references up to the next entry, and
for as many after each entry that is still to be made. -/
theorem ends_declaration (hroot : document.Holds root)
    (hcircle : ∀ c, ¬Relation.TransGen (LeadsTo (.ofRoot document root)) c c)
    (compile : Compiler G) :
    ∀ (depth n k : Nat) (c : Cursor), document.Holds c → Settles (.ofRoot document root) c k →
      n * ((Source.ofRoot document root).elements.length + 1) + k < depth →
      Read.Ends document n (declaration (.ofRoot document root) compile depth c)
  | 0, _, _, _, _, _, hdepth => absurd hdepth (Nat.not_lt_zero _)
  | depth + 1, n, k, c, hc, hsettles, hdepth => by
      rcases reference_cases (.ofRoot document root) c with
        href | ⟨reference, href, hnone⟩ | ⟨target, htarget⟩
      · rw [declaration_succ _ _ _ _ href]
        refine .declared hc compile _ _ fun m hm => ends_content hroot hc fun p hp => ?_
        obtain ⟨k', hk', hsettles'⟩ := exists_settles hcircle p
        refine ends_declaration hroot hcircle compile depth m k' p hp hsettles' ?_
        -- one place fewer makes room for all references up to the next entry
        have hroom := Nat.mul_le_mul_right ((Source.ofRoot document root).elements.length + 1) hm
        rw [Nat.succ_mul] at hroom
        omega
      · rw [declaration_of_undefined href hnone]
        exact .bind (.enterUndefined _) fun _ => .pure _
      · rw [declaration_of_leadsTo htarget]
        cases hsettles with
        | here hno => exact absurd htarget (hno target)
        | @step _ target' k htarget' hsettles =>
            obtain rfl := htarget.unique htarget'
            have hholds : document.Holds target :=
              hroot.child (List.mem_filter.mp htarget.mem_children).1
            exact ends_declaration hroot hcircle compile depth n k target hholds hsettles
              (by omega)

theorem length_elements_lt (document : Document) (root : Cursor) :
    (Source.ofRoot document root).elements.length < root.element.size :=
  calc (Source.ofRoot document root).elements.length
      ≤ (root.children.filter (isComponent "element")).length := List.length_filterMap_le _ _
    _ ≤ root.children.length := List.length_filter_le _ _
    _ < root.element.size := root.length_children_lt

/-- Without a circle the depth of the reader is enough for all top-level elements. -/
theorem ends_declarations (hroot : document.Holds root)
    (hcircle : ∀ c, ¬Relation.TransGen (LeadsTo (.ofRoot document root)) c c)
    (compile : Compiler G) :
    Read.Ends document root.element.size
      (declarations (.ofRoot document root) compile (depthBound root.element)) := by
  refine .bind (.forEach fun p hp => ?_) fun _ => .pure _
  obtain ⟨k, hk, hsettles⟩ := exists_settles hcircle p
  refine ends_declaration hroot hcircle compile _ _ k p
    (hroot.child (List.mem_filter.mp hp).1) hsettles ?_
  have hlength := length_elements_lt document root
  calc root.element.size * ((Source.ofRoot document root).elements.length + 1) + k
      ≤ root.element.size * root.element.size + root.element.size :=
        Nat.add_le_add (Nat.mul_le_mul_left _ hlength) (by omega)
    _ < depthBound root.element := by
        rw [depthBound, Nat.add_mul, Nat.mul_add]
        omega

/-! ## Circles -/

/-- From a component on a circle the reader goes round and round. -/
theorem neverEnds_of_circle (h : Relation.TransGen (LeadsTo source) c c)
    (compile : Compiler G) (depth : Nat) :
    Read.NeverEnds (declaration source compile depth c) := by
  induction depth generalizing c with
  | zero => exact fun _ => rfl
  | succ depth ih =>
      obtain ⟨target, htarget, hback⟩ := Relation.TransGen.head'_iff.mp h
      rw [declaration_of_leadsTo htarget]
      exact ih (Relation.TransGen.tail' hback htarget)

/-- A component on a circle is a top-level element. -/
theorem mem_children_of_circle (h : Relation.TransGen (LeadsTo (.ofRoot document root)) c c) :
    c ∈ root.children.filter (isComponent "element") := by
  obtain ⟨before, -, hlast⟩ := Relation.TransGen.tail'_iff.mp h
  exact hlast.mem_children

/-- References of top-level elements of a schema come round in a circle. -/
def HasCircle (document : Document) : Prop :=
  ∃ root c, document.cursor? = some root ∧ isComponent "schema" root = true ∧
    Relation.TransGen (LeadsTo (.ofRoot document root)) c c

theorem readUpTo_of_circle (h : HasCircle document) (compile : Compiler G) (depth : Nat) :
    readUpTo compile document depth = .endless := by
  obtain ⟨root, c, hroot, hschema, hcircle⟩ := h
  have hnever : Read.NeverEnds (declarations (.ofRoot document root) compile depth) :=
    .bind (.forEach (mem_children_of_circle hcircle) (neverEnds_of_circle hcircle compile depth)) _
  rw [readUpTo, hroot]
  dsimp only
  rw [if_pos hschema, hnever {}]

/-! ## All schema documents -/

theorem readUpTo_of_run (hroot : document.cursor? = some root)
    (hschema : isComponent "schema" root = true) {roots : List Nat} {s : Collected G}
    (hrun : (declarations (.ofRoot document root) compile depth).run {} = some (roots, s)) :
    readUpTo compile document depth =
      .finished (some { declarations := s.declarations, roots := roots }) s.requests := by
  rw [readUpTo, hroot]
  dsimp only
  rw [if_pos hschema, hrun]

/-- Without a circle reading ends, and goes no deeper than it does. -/
theorem exists_finished (h : ¬HasCircle document) (compile : Compiler G) :
    ∃ model requests, ∀ depth, (document.root.map depthBound).getD 0 ≤ depth →
      readUpTo compile document depth = .finished model requests := by
  cases helement : document.root with
  | none =>
      refine ⟨none, [], fun depth _ => ?_⟩
      rw [readUpTo, Document.cursor?, helement]
      rfl
  | some element =>
      have hroot : document.cursor? = some { element := element } := by
        rw [Document.cursor?, helement]
        rfl
      by_cases hschema : isComponent "schema" { element := element } = true
      · have hcircle : ∀ c, ¬Relation.TransGen
            (LeadsTo (.ofRoot document { element := element })) c c :=
          fun c hc => h ⟨_, c, hroot, hschema, hc⟩
        obtain ⟨roots, s, hrun, -⟩ :=
          ends_declarations (Document.holds_root helement) hcircle compile {} (.start helement)
        refine ⟨some { declarations := s.declarations, roots := roots }, s.requests,
          fun depth hdepth => readUpTo_of_run hroot hschema ?_⟩
        exact extends_declarations _ compile hdepth {} (roots, s) hrun
      · refine ⟨none, [], fun depth _ => ?_⟩
        rw [readUpTo, hroot]
        exact if_neg hschema

/-- Reading a schema document comes to an end exactly if no references of its top-level elements
come round in a circle; then a greater depth changes nothing, and otherwise no depth is enough. -/
theorem reading_ends_iff (compile : Compiler G) (document : Document) :
    (read compile document = .endless ↔ HasCircle document) ∧
      (HasCircle document → ∀ depth, readUpTo compile document depth = .endless) ∧
      ∀ depth, (document.root.map depthBound).getD 0 ≤ depth →
        readUpTo compile document depth = read compile document := by
  by_cases h : HasCircle document
  · have hendless := readUpTo_of_circle h compile
    refine ⟨⟨fun _ => h, fun _ => hendless _⟩, fun _ => hendless, fun depth _ => ?_⟩
    rw [read, hendless, hendless]
  · obtain ⟨model, requests, hfinished⟩ := exists_finished h compile
    have hread : read compile document = .finished model requests :=
      hfinished _ (Nat.le_refl _)
    refine ⟨⟨fun hendless => ?_, fun hcircle => absurd hcircle h⟩,
      fun hcircle => absurd hcircle h, fun depth hdepth => ?_⟩
    · cases hread.symm.trans hendless
    · rw [hread, hfinished depth hdepth]

end

/-!
## A ring and a tree

In `ring` a top-level element refers to itself. A `tree` is a list of branches, and a branch is a
twig, which is a tree: the references lead on to the element whose content they stand in, but none
of them leads back to itself.
-/

namespace Rings

def ring : Document :=
  documentOf [component "element" [("name", "a"), ("ref", "a")] []]

def ringRoot : Cursor where
  element := schemaOf [component "element" [("name", "a"), ("ref", "a")] []]

def tree : Document :=
  documentOf
    [component "element" [("name", "tree")]
      [sequenceOf []
        [component "element" [("ref", "branch"), ("minOccurs", "0"), ("maxOccurs", "unbounded")]
          []]],
     component "element" [("name", "branch"), ("ref", "twig")] [],
     component "element" [("name", "twig"), ("ref", "tree")] []]

def treeModel : Model Nat where
  declarations :=
    [{ name := "tree"
       body := .children { ordered := true, particles := [⟨0, "tree", 0, none⟩] } }]
  roots := [0, 0, 0]

theorem hasCircle_ring : HasCircle ring := by
  refine ⟨ringRoot, below ringRoot 0 (component "element" [("name", "a"), ("ref", "a")] []), rfl,
    rfl, .single ⟨"a", rfl, rfl⟩⟩

/-- The tree is read at any depth that is large enough, the ring at none. -/
theorem reading_ends_iff_tree :
    HasCircle ring ∧ readUpTo numbering ring 1000 = .endless ∧ ¬HasCircle tree ∧
      readUpTo numbering tree 1000 = .finished (some treeModel) [] := by
  obtain ⟨-, hring, -⟩ := reading_ends_iff numbering ring
  obtain ⟨hends, -, htree⟩ := reading_ends_iff numbering tree
  have hread : read numbering tree = .finished (some treeModel) [] := by
    rfl
  refine ⟨hasCircle_ring, hring hasCircle_ring 1000, fun hcircle => ?_, ?_⟩
  · cases hread.symm.trans (hends.mpr hcircle)
  · rw [htree 1000 (by decide), hread]

/-- No depth is enough to read the ring. -/
theorem reading_never_ends : ¬∃ depth, readUpTo numbering ring depth ≠ .endless := by
  rintro ⟨depth, hends⟩
  exact hends (readUpTo_of_circle hasCircle_ring numbering depth)

end Rings

end VideoCatalog.Grammar.Schema
