import VideoCatalog.Proofs.Xml.Place

/-!
# How far a document extends

A document has as many places as elements. `Element.placesFrom` lists the paths at which the
elements of a subtree stand (`length_placesFrom`), and the path of every cursor of a document is
among those of its root (`Document.Holds.path_mem_placesFrom`). Every element has fewer elements
below it than the one around it has.
-/

namespace VideoCatalog.Xml

namespace Element

mutual
/-- The paths of the elements of a subtree whose top stands at `path`. -/
def placesFrom (path : List Nat) : Element → List (List Nat)
  | .mk _ _ children => path :: placesBelow path 0 children

/-- The paths of the elements of several subtrees, whose tops are the children of the element at
`path` from position `i` on. -/
def placesBelow (path : List Nat) : Nat → List Element → List (List Nat)
  | _, [] => []
  | i, e :: es => placesFrom (path ++ [i]) e ++ placesBelow path (i + 1) es
end

mutual
theorem length_placesFrom (path : List Nat) : ∀ e : Element, (placesFrom path e).length = e.size
  | .mk _ _ children => by
      rw [placesFrom, List.length_cons, length_placesBelow path 0 children, size]

theorem length_placesBelow (path : List Nat) : ∀ (i : Nat) (es : List Element),
    (placesBelow path i es).length = sizes es
  | _, [] => rfl
  | i, e :: es => by
      rw [placesBelow, List.length_append, length_placesFrom (path ++ [i]) e,
        length_placesBelow path (i + 1) es, sizes]
end

theorem mem_placesFrom_self (path : List Nat) (e : Element) : path ∈ placesFrom path e := by
  cases e
  exact List.mem_cons_self

theorem size_pos (e : Element) : 0 < e.size := by
  cases e
  exact Nat.succ_pos _

theorem size_le_sizes {e : Element} {es : List Element} (h : e ∈ es) : e.size ≤ sizes es := by
  induction es with
  | nil => cases h
  | cons e' es ih =>
      rw [sizes]
      rcases List.mem_cons.mp h with rfl | h
      · exact Nat.le_add_right _ _
      · exact Nat.le_trans (ih h) (Nat.le_add_left _ _)

theorem length_le_sizes (es : List Element) : es.length ≤ sizes es := by
  induction es with
  | nil => exact Nat.le_refl 0
  | cons e es ih =>
      rw [sizes, List.length_cons, Nat.add_comm]
      exact Nat.add_le_add e.size_pos ih

theorem size_eq (e : Element) : e.size = sizes e.children + 1 := by
  cases e
  rfl

end Element

namespace Cursor

variable {c below : Cursor}

theorem mem_of_mem_children (h : below ∈ c.children) : below.element ∈ c.element.children := by
  rw [children, childrenFrom_eq_map] at h
  obtain ⟨entry, hentry, rfl⟩ := List.mem_map.mp h
  exact List.fst_mem_of_mem_zipIdx hentry

theorem length_children (c : Cursor) : c.children.length = c.element.children.length := by
  rw [children, childrenFrom_eq_map, List.length_map, List.length_zipIdx]

theorem size_lt_of_mem_children (h : below ∈ c.children) : below.element.size < c.element.size := by
  rw [c.element.size_eq]
  exact Nat.lt_succ_of_le (Element.size_le_sizes (mem_of_mem_children h))

theorem length_children_lt (c : Cursor) : c.children.length < c.element.size := by
  rw [length_children, c.element.size_eq]
  exact Nat.lt_succ_of_le (Element.length_le_sizes _)

/-- The places below a child are among those below its parent. -/
theorem placesFrom_subset_of_mem_children (h : below ∈ c.children) :
    Element.placesFrom below.path below.element ⊆ Element.placesFrom c.path c.element := by
  have hbelow : ∀ (es : List Element) (i : Nat), below ∈ c.childrenFrom i es →
      Element.placesFrom below.path below.element ⊆ Element.placesBelow c.path i es := by
    intro es
    induction es with
    | nil =>
        intro i hmem
        cases hmem
    | cons e es ih =>
        intro i hmem
        rcases List.mem_cons.mp hmem with rfl | hmem
        · exact List.subset_append_left _ _
        · exact List.Subset.trans (ih (i + 1) hmem) (List.subset_append_right _ _)
  obtain ⟨⟨tag, text, es⟩, ancestors, path⟩ := c
  exact List.Subset.trans (hbelow es 0 h) (List.subset_cons_self _ _)

end Cursor

namespace Document

variable {d : Document} {root : Element} {c : Cursor}

theorem Holds.path_mem_placesFrom (hroot : d.root = some root) (h : d.Holds c) :
    c.path ∈ Element.placesFrom [] root := by
  have hsubset : Element.placesFrom c.path c.element ⊆ Element.placesFrom [] root :=
    Holds.induction (P := fun c =>
        Element.placesFrom c.path c.element ⊆ Element.placesFrom [] root)
      hroot (List.Subset.refl _)
      (fun hc hbelow => List.Subset.trans (Cursor.placesFrom_subset_of_mem_children hbelow) hc) h
  exact hsubset (Element.mem_placesFrom_self _ _)

theorem Holds.size_le (hroot : d.root = some root) (h : d.Holds c) :
    c.element.size ≤ root.size :=
  Holds.induction (P := fun c => c.element.size ≤ root.size) hroot (Nat.le_refl _)
    (fun hc hbelow => Nat.le_trans (Nat.le_of_lt (Cursor.size_lt_of_mem_children hbelow)) hc) h

end Document

end VideoCatalog.Xml
