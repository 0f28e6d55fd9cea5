import VideoCatalog.Proofs.Grammar.Ending
import VideoCatalog.Proofs.Pattern.Listing

/-!
# Reading a pattern grammar comes to an end

The reader goes down the tree, and by a reference it jumps to another part of it. A jump always
leads to an element pattern, and an element pattern is entered before its content is read, so
between two entries the reader only goes down: through the occurrence operators of one content
(`ends_particle`) or the choices of the start (`ends_startDeclarations`). The measure is the number
of places without an entry, and after that the size of the pattern at hand.

Defines that refer back to themselves therefore cannot keep the reader from ending, whatever lies
on the way (`reading_ends`).
-/

namespace VideoCatalog.Grammar.Pattern

open Xml (Cursor Document Element)

section

variable {G : Type} {document : Document} {source : Source} {root c : Cursor}
  {n depth depth' : Nat} {compile : Compiler G}

theorem size_lt_of_mem_parts {p : Cursor} (h : p ∈ parts c) : p.element.size < c.element.size :=
  Cursor.size_lt_of_mem_children (List.mem_filter.mp h).1

/-- A pattern that refers to a definition with one element pattern has it as its target. -/
theorem target_of_bind {t : Cursor} (href : c.name = "ref")
    (h : (c.element.attribute? "name").bind (definedElement? source) = some t) :
    Target source c t := by
  obtain ⟨name, hwritten, hdefined⟩ := Option.bind_eq_some_iff.mp h
  exact .ref href hwritten hdefined

/-! ## Deeper readers -/

section Steps

variable {declare declare' : Cursor → Read G (Nat × String)}

theorem extends_once (h : ∀ t, Read.Extends (declare' t) (declare t)) (t : Cursor) :
    Read.Extends (once declare' t) (once declare t) :=
  .bind (h t) fun _ => .refl _

theorem extends_particle (h : ∀ t, Read.Extends (declare' t) (declare t)) :
    ∀ {depth depth' : Nat}, depth ≤ depth' → ∀ c,
      Read.Extends (particle source declare' depth' c) (particle source declare depth c)
  | 0, _, _, _ => .tooDeep
  | depth + 1, depth' + 1, hle, c => by
      unfold particle
      split
      · exact extends_once h c
      · split
        · cases (c.element.attribute? "name").bind (definedElement? source) with
          | none => exact .refl _
          | some t => exact extends_once h t
        · split
          · split
            · next single _ =>
              refine .bind (extends_particle h (Nat.le_of_succ_le_succ hle) single) fun base => ?_
              exact .refl _
            · exact .refl _
          · exact .refl _

theorem extends_content (h : ∀ t, Read.Extends (declare' t) (declare t)) (hle : depth ≤ depth')
    (c : Cursor) :
    Read.Extends (content source declare' depth' c) (content source declare depth c) := by
  unfold content
  dsimp only
  split
  · exact .refl _
  · exact .bind (.allOrNone (extends_particle h hle) _) fun _ => .refl _

end Steps

/-- What is read of an element pattern at one depth is read at any greater one. -/
theorem extends_declaration (source : Source) (compile : Compiler G) :
    ∀ {depth depth' : Nat}, depth ≤ depth' → ∀ c,
      Read.Extends (declaration source compile depth' c) (declaration source compile depth c)
  | 0, _, _, _ => .tooDeep
  | depth + 1, depth' + 1, hle, c => by
      have hle : depth ≤ depth' := Nat.le_of_succ_le_succ hle
      rw [declaration_succ, declaration_succ]
      exact .declared (extends_content (extends_declaration source compile hle) hle c) compile _ _ _

theorem extends_startDeclarations (source : Source) (compile : Compiler G) :
    ∀ {depth depth' : Nat}, depth ≤ depth' → ∀ c,
      Read.Extends (startDeclarations source compile depth' c)
        (startDeclarations source compile depth c)
  | 0, _, _, _ => .tooDeep
  | depth + 1, depth' + 1, hle, c => by
      have hle : depth ≤ depth' := Nat.le_of_succ_le_succ hle
      have hdeclared := extends_declaration source compile hle
      unfold startDeclarations
      split
      · exact .bind (hdeclared c) fun _ => .refl _
      · split
        · cases (c.element.attribute? "name").bind (definedElement? source) with
          | none => exact .refl _
          | some t => exact .bind (hdeclared t) fun _ => .refl _
        · split
          · exact .bind (.forEach (extends_startDeclarations source compile hle) _) fun _ =>
              .refl _
          · exact .refl _

theorem extends_roots {roots : Read G (List Nat)}
    (hroots : roots? source compile depth = some roots) (hle : depth ≤ depth') :
    ∃ roots', roots? source compile depth' = some roots' ∧ Read.Extends roots' roots := by
  unfold roots? at hroots ⊢
  split at hroots
  · next hgrammar =>
    rw [if_pos hgrammar]
    obtain ⟨start, hstart, rfl⟩ := Option.map_eq_some_iff.mp hroots
    rw [hstart]
    exact ⟨_, rfl,
      .bind (.forEach (extends_startDeclarations source compile hle) _) fun _ => .refl _⟩
  · next hgrammar =>
    rw [if_neg hgrammar]
    split at hroots
    · next helement =>
      rw [if_pos helement]
      obtain rfl := Option.some.inj hroots
      exact ⟨_, rfl, .bind (extends_declaration source compile hle _) fun _ => .refl _⟩
    · cases hroots

theorem roots_eq_none (hroots : roots? source compile depth = none) (depth' : Nat) :
    roots? source compile depth' = none := by
  unfold roots? at hroots ⊢
  split at hroots
  · next hgrammar =>
    rw [if_pos hgrammar, Option.map_eq_none_iff.mp hroots]
    rfl
  · next hgrammar =>
    rw [if_neg hgrammar]
    split at hroots
    · cases hroots
    · next helement => exact if_neg helement

/-! ## One element pattern -/

section Steps

variable {declare : Cursor → Read G (Nat × String)}

theorem ends_once {t : Cursor} (h : Read.Ends document n (declare t)) :
    Read.Ends document n (once declare t) :=
  .bind h fun _ => .pure _

/-- A depth of the size of a pattern is enough for its particle, if the element patterns come to an
end to which it leads. -/
theorem ends_particle (hroot : document.Holds root)
    (h : ∀ t, document.Holds t → Read.Ends document n (declare t)) :
    ∀ (depth : Nat) (c : Cursor), document.Holds c → c.element.size ≤ depth →
      Read.Ends document n (particle (.ofRoot document root) declare depth c)
  | 0, c, _, hdepth => absurd hdepth (Nat.not_le_of_lt c.element.size_pos)
  | depth + 1, c, hc, hdepth => by
      unfold particle
      split
      · exact ends_once (h c hc)
      · split
        · next href =>
          cases htarget :
              (c.element.attribute? "name").bind (definedElement? (.ofRoot document root)) with
          | none => exact .pure _
          | some t => exact ends_once (h t ((target_of_bind href htarget).holds hroot hc))
        · split
          · split
            · next single hparts =>
              have hsingle : single ∈ parts c := hparts ▸ List.mem_singleton_self single
              have hsize : single.element.size ≤ depth :=
                Nat.le_of_lt_succ (Nat.lt_of_lt_of_le (size_lt_of_mem_parts hsingle) hdepth)
              have hheld : document.Holds single := holds_of_mem_parts hc hsingle
              refine .bind (ends_particle hroot h depth single hheld hsize) fun base => ?_
              cases base with
              | none => exact .pure _
              | some base =>
                  dsimp only
                  split
                  · exact .pure _
                  · exact .pure _
            · exact .pure _
          · exact .pure _

theorem ends_content {top : Element} (htop : document.root = some top)
    (hroot : document.Holds root) (hc : document.Holds c)
    (h : ∀ t, document.Holds t → Read.Ends document n (declare t)) (hdepth : top.size ≤ depth) :
    Read.Ends document n (content (.ofRoot document root) declare depth c) := by
  unfold content
  dsimp only
  split
  · exact .pure _
  · refine .bind (.allOrNone fun p hp => ?_) fun found => ?_
    · have hp : document.Holds p := holds_of_mem_shape hc hp
      exact ends_particle hroot h depth p hp (Nat.le_trans (hp.size_le htop) hdepth)
    · cases found with
      | none => exact .pure _
      | some particles => exact .pure _

end Steps

/-- Reading an element pattern ends at any depth with room for one level for each entry that is
still to be made, and for one pattern of the document. -/
theorem ends_declaration {top : Element} (htop : document.root = some top)
    (hroot : document.Holds root) (compile : Compiler G) :
    ∀ (depth n : Nat) (c : Cursor), document.Holds c → n + top.size < depth →
      Read.Ends document n (declaration (.ofRoot document root) compile depth c)
  | 0, _, _, _, hdepth => absurd hdepth (Nat.not_lt_zero _)
  | depth + 1, n, c, hc, hdepth => by
      rw [declaration_succ]
      refine .declared hc compile _ _ fun m hm =>
        ends_content htop hroot hc (fun t ht => ?_) (by omega)
      exact ends_declaration htop hroot compile depth m t ht (by omega)

/-! ## All grammar documents -/

theorem ends_startDeclarations {top : Element} (htop : document.root = some top)
    (hroot : document.Holds root) (compile : Compiler G) :
    ∀ (depth : Nat) (c : Cursor), document.Holds c →
      n + top.size + c.element.size < depth →
      Read.Ends document n (startDeclarations (.ofRoot document root) compile depth c)
  | 0, _, _, hdepth => absurd hdepth (Nat.not_lt_zero _)
  | depth + 1, c, hc, hdepth => by
      have hpositive := c.element.size_pos
      have hindex : ∀ t, document.Holds t → Read.Ends document n
          (declaration (.ofRoot document root) compile depth t >>= fun found => pure [found.1]) :=
        fun t ht => .bind (ends_declaration htop hroot compile depth n t ht (by omega))
          fun _ => .pure _
      unfold startDeclarations
      split
      · exact hindex c hc
      · split
        · next href =>
          cases htarget :
              (c.element.attribute? "name").bind (definedElement? (.ofRoot document root)) with
          | none => exact .pure _
          | some t => exact hindex t ((target_of_bind href htarget).holds hroot hc)
        · split
          · refine .bind (.forEach fun p hp => ?_) fun _ => .pure _
            have hsize := size_lt_of_mem_parts hp
            exact ends_startDeclarations htop hroot compile depth p (holds_of_mem_parts hc hp)
              (by omega)
          · exact .pure _

/-- The depth of the reader is enough for all that the roots lead to. -/
theorem ends_roots {top : Element} (htop : document.root = some top) {roots : Read G (List Nat)}
    (hroots : roots? (.ofRoot document { element := top }) compile (depthBound top) = some roots) :
    Read.Ends document top.size roots := by
  have hroot : document.Holds { element := top } := Document.holds_root htop
  have hbound : top.size + top.size + top.size < depthBound top := by
    rw [depthBound, Nat.add_mul, Nat.mul_add]
    omega
  unfold roots? at hroots
  split at hroots
  · obtain ⟨start, hstart, rfl⟩ := Option.map_eq_some_iff.mp hroots
    have hholds : document.Holds start :=
      holds_of_mem_parts hroot (List.mem_of_find?_eq_some hstart)
    refine .bind (.forEach fun p hp => ?_) fun _ => .pure _
    have hp : document.Holds p := holds_of_mem_parts hholds hp
    have hsize : p.element.size ≤ top.size := hp.size_le htop
    exact ends_startDeclarations htop hroot compile _ p hp (by omega)
  · split at hroots
    · obtain rfl := Option.some.inj hroots
      exact .bind (ends_declaration htop hroot compile _ _ _ hroot (by omega)) fun _ => .pure _
    · cases hroots

theorem finish_of_run {roots : Read G (List Nat)} {indices : List Nat} {s : Collected G}
    (h : roots.run {} = some (indices, s)) :
    finish roots =
      .finished (some { declarations := s.declarations, roots := indices }) s.requests := by
  rw [finish, h]

/-- Reading a pattern grammar comes to an end, whatever the document is and whatever its definitions
refer to, and a greater depth changes nothing in what is read. -/
theorem reading_ends (compile : Compiler G) (document : Document) :
    ∃ model requests, read compile document = .finished model requests ∧
      ∀ depth, (document.root.map depthBound).getD 0 ≤ depth →
        readUpTo compile document depth = .finished model requests := by
  suffices h : ∃ model requests, ∀ depth, (document.root.map depthBound).getD 0 ≤ depth →
      readUpTo compile document depth = .finished model requests by
    obtain ⟨model, requests, hfinished⟩ := h
    exact ⟨model, requests, hfinished _ (Nat.le_refl _), hfinished⟩
  cases htop : document.root with
  | none =>
      refine ⟨none, [], fun depth _ => ?_⟩
      rw [readUpTo, Document.cursor?, htop]
      rfl
  | some top =>
      have hroot : document.cursor? = some { element := top } := by
        rw [Document.cursor?, htop]
        rfl
      cases hroots : roots? (.ofRoot document { element := top }) compile (depthBound top) with
      | none =>
          refine ⟨none, [], fun depth _ => ?_⟩
          rw [readUpTo_eq hroot, roots_eq_none hroots depth]
      | some roots =>
          obtain ⟨indices, s, hrun, -⟩ := ends_roots htop hroots {} (.start htop)
          refine ⟨some { declarations := s.declarations, roots := indices }, s.requests,
            fun depth hdepth => ?_⟩
          obtain ⟨roots', hroots', hextends⟩ := extends_roots hroots hdepth
          rw [readUpTo_eq hroot, hroots']
          exact finish_of_run (hextends {} (indices, s) hrun)

end

/-!
## Knots

A node holds nodes and may end with a leaf; a leaf holds a node again. One definition refers to
itself with nothing in between, `leaf` is defined twice, and `gone` not at all.
-/

namespace Knots

def reference (name : String) : Element :=
  part "ref" [("name", name)] []

def define (name : String) (children : List Element) : Element :=
  part "define" [("name", name)] children

def node : Element :=
  part "element" [("name", "node")]
    [part "zeroOrMore" [] [reference "node"], part "optional" [] [reference "leaf"]]

def leaf : Element :=
  part "element" [("name", "leaf")] [reference "node"]

def start : Element :=
  part "start" []
    [part "choice" []
      [reference "node", part "choice" [] [reference "self", reference "gone", reference "leaf"]]]

def document : Document :=
  documentOf
    [start, define "node" [node], define "leaf" [reference "leaf"], define "leaf" [leaf],
     define "self" [part "oneOrMore" [] [reference "self"]]]

def model : Model Nat where
  declarations :=
    [{ name := "node"
       body := .children
         { ordered := true, particles := [⟨0, "node", 0, none⟩, ⟨1, "leaf", 0, some 1⟩] } },
     { name := "leaf"
       body := .children { ordered := true, particles := [⟨0, "node", 1, some 1⟩] } }]
  roots := [0, 1]

/-- Reading comes to an end with two declarations, and deeper reading with the same. -/
theorem reading_ends_knots :
    read numbering document = .finished (some model) [] ∧
      readUpTo numbering document 5000 = .finished (some model) [] := by
  have hread : read numbering document = .finished (some model) [] := by
    rfl
  obtain ⟨model', requests, hread', hdeeper⟩ := reading_ends numbering document
  refine ⟨hread, ?_⟩
  rw [hdeeper 5000 (by decide), ← hread', hread]

end Knots

end VideoCatalog.Grammar.Pattern
