import VideoCatalog.Xml.Element

/-!
# Cursors stand where their paths say

A cursor carries its path, and `Document.at?` follows a path. The two agree for every cursor that is
reached from the root by going to children (`Document.Holds`), and what goes from elements to their
children holds of every one of them (`Document.Holds.induction`).
-/

namespace VideoCatalog.Xml

/-- The children of a cursor stand at their positions. -/
theorem Cursor.childrenFrom_eq_map (c : Cursor) : ∀ (i : Nat) (es : List Element),
    c.childrenFrom i es = (es.zipIdx i).map (fun entry =>
      { element := entry.1, ancestors := c.element :: c.ancestors, path := c.path ++ [entry.2] })
  | _, [] => rfl
  | i, e :: es => by
      rw [childrenFrom, childrenFrom_eq_map c (i + 1) es, List.zipIdx_cons, List.map_cons]

theorem Cursor.exists_getElem?_of_mem_children {c child : Cursor} (h : child ∈ c.children) :
    ∃ i, child.path = c.path ++ [i] ∧ c.children[i]? = some child := by
  rw [children, childrenFrom_eq_map] at h
  obtain ⟨⟨e, i⟩, hentry, rfl⟩ := List.mem_map.mp h
  refine ⟨i, rfl, ?_⟩
  have hi : c.element.children[i]? = some e := by
    simpa using List.mem_zipIdx_iff_getElem?.mp hentry
  rw [children, childrenFrom_eq_map, List.getElem?_map, List.getElem?_zipIdx, hi]
  simp

theorem Cursor.getElem?_children (c : Cursor) (i : Nat) :
    c.children[i]? = c.element.children[i]?.map (fun e =>
      { element := e, ancestors := c.element :: c.ancestors, path := c.path ++ [i] }) := by
  rw [children, childrenFrom_eq_map, List.getElem?_map, List.getElem?_zipIdx]
  cases c.element.children[i]? with
  | none => rfl
  | some e => simp

theorem Cursor.path_of_descend {c below : Cursor} {is : List Nat} (h : c.descend is = some below) :
    below.path = c.path ++ is := by
  induction is generalizing c with
  | nil =>
      cases h
      exact (List.append_nil _).symm
  | cons i is ih =>
      rw [descend, getElem?_children] at h
      cases hchild : c.element.children[i]? with
      | none =>
          rw [hchild] at h
          cases h
      | some e =>
          rw [hchild] at h
          rw [ih h, List.append_assoc, List.singleton_append]

theorem Cursor.descend_append (c : Cursor) (is js : List Nat) :
    c.descend (is ++ js) = (c.descend is).bind (fun next => next.descend js) := by
  induction is generalizing c with
  | nil => rfl
  | cons i is ih =>
      rw [List.cons_append, descend, descend]
      cases c.children[i]? with
      | none => rfl
      | some next => exact ih next

namespace Document

variable {d : Document} {root : Element} {c below : Cursor}

/-- The cursor is found at its path. -/
def Holds (d : Document) (c : Cursor) : Prop :=
  d.at? c.path = some c

theorem holds_root (h : d.root = some root) : d.Holds { element := root } := by
  rw [Holds, at?, cursor?, h]
  rfl

theorem Holds.child (h : d.Holds c) (hbelow : below ∈ c.children) : d.Holds below := by
  obtain ⟨i, hpath, hi⟩ := Cursor.exists_getElem?_of_mem_children hbelow
  obtain ⟨start, hstart, hdescend⟩ := Option.bind_eq_some_iff.mp h
  rw [Holds, at?, hstart, Option.bind_some, hpath, Cursor.descend_append, hdescend,
    Option.bind_some, Cursor.descend, hi]
  rfl

/-- What holds of the root and goes from elements to their children holds everywhere. -/
theorem Holds.induction {P : Cursor → Prop} (hroot : d.root = some root)
    (hstart : P { element := root })
    (hstep : ∀ {c below : Cursor}, P c → below ∈ c.children → P below) (h : d.Holds c) : P c := by
  have hdescend : ∀ (is : List Nat) {start below : Cursor}, P start →
      start.descend is = some below → P below := by
    intro is
    induction is with
    | nil =>
        intro start below hP hbelow
        cases hbelow
        exact hP
    | cons i is ih =>
        intro start below hP hbelow
        rw [Cursor.descend] at hbelow
        cases hnext : start.children[i]? with
        | none =>
            rw [hnext] at hbelow
            cases hbelow
        | some next =>
            rw [hnext] at hbelow
            exact ih (hstep hP (List.mem_of_getElem? hnext)) hbelow
  obtain ⟨start, hcursor, hpath⟩ := Option.bind_eq_some_iff.mp h
  rw [cursor?, hroot, Option.map_some] at hcursor
  obtain rfl := Option.some.inj hcursor
  exact hdescend _ hstart hpath

theorem path_of_at? {path : List Nat} (h : d.at? path = some c) : c.path = path := by
  obtain ⟨start, hstart, hdescend⟩ := Option.bind_eq_some_iff.mp h
  obtain ⟨root, -, rfl⟩ := Option.map_eq_some_iff.mp hstart
  exact Cursor.path_of_descend hdescend

/-- A path of one position leads to a child of the root. -/
theorem getElem?_children_of_at? (hroot : d.root = some root) {i : Nat}
    (h : d.at? [i] = some c) : root.children[i]? = some c.element := by
  rw [at?, cursor?, hroot, Option.map_some, Option.bind_some, Cursor.descend,
    Cursor.getElem?_children] at h
  cases hchild : root.children[i]? with
  | none =>
      rw [hchild] at h
      cases h
  | some e =>
      rw [hchild] at h
      cases h
      rfl

/-- A path leads to one cursor at most. -/
theorem Holds.eq_of_path_eq {c' : Cursor} (h : d.Holds c) (h' : d.Holds c')
    (hpath : c.path = c'.path) : c = c' := by
  unfold Holds at h h'
  rw [hpath] at h
  exact Option.some.inj (h.symm.trans h')

end Document

end VideoCatalog.Xml
