import VideoCatalog.Proofs.Grammar.Account

/-!
# The elements that a model reaches

A model checks a document from its root down. It *reaches* the root, against the first root
declaration of its name, and every child of a reached element-only element whose slot is not
`unexpected`, against the declaration in that slot. A model may be recursive; a document is not, so
the reached elements are finitely many, and `Model.occurrences` lists them.

* `Model.Reaches` is the relation, one rule for the start and one for a child.
* `mem_occurrences` — the list holds exactly what the relation reaches.
* `pairwise_occurrences` — the list is strictly increasing in document order, so nothing is listed
  twice and a parent stands before what is below it.

A place in a document is the list of positions among element children that leads to it. The order
of such lists as words is document order: an element comes before all below it, and those before
its later siblings.
-/

namespace VideoCatalog.Grammar

open Xml (Element)

/-- An element at its place in a document, and the declaration that it is checked against. -/
structure Occurrence where
  path : List Nat
  element : Element
  index : Nat

/-- What is reached below the child at position `i`, seen from the parent. -/
def Occurrence.under (i : Nat) (o : Occurrence) : Occurrence :=
  { o with path := i :: o.path }

@[simp] theorem Occurrence.under_path (i : Nat) (o : Occurrence) :
    (o.under i).path = i :: o.path := rfl

@[simp] theorem Occurrence.under_element (i : Nat) (o : Occurrence) :
    (o.under i).element = o.element := rfl

@[simp] theorem Occurrence.under_index (i : Nat) (o : Occurrence) :
    (o.under i).index = o.index := rfl

namespace Model

variable {G : Type} {m : Model G} {e c : Element} {o : Occurrence} {index next i : Nat}

/-- How the elements of the declaration at a position are checked. Behind the last declaration
there is nothing to check them by. -/
def body (m : Model G) (index : Nat) : Body G :=
  match m.declarations[index]? with
  | some declaration => declaration.body
  | none => .unsupported

/-- The name of the declaration at a position. -/
def nameAt (m : Model G) (index : Nat) : String :=
  ((m.declarations[index]?).map Declaration.name).getD ""

/-! ## The relation -/

/-- The element `e`, checked against the declaration at `index`, hands its child `c` at position `i`
on to the declaration at `next`: `e` is element-only there, and the slot of `c` is not
`unexpected`. -/
def HandsOn (m : Model G) (e : Element) (index i : Nat) (c : Element) (next : Nat) : Prop :=
  ∃ content slot, m.body index = .children content ∧ e.children[i]? = some c ∧
    (content.place (e.children.map Element.name))[i]? = some slot ∧ slot.target? = some next

/-- What is reached from an element checked against the declaration at a position. -/
inductive Reaches (m : Model G) (e : Element) (index : Nat) : Occurrence → Prop
  | self : Reaches m e index ⟨[], e, index⟩
  | child {o : Occurrence} {i : Nat} {c : Element} {next : Nat} :
      Reaches m e index o → m.HandsOn o.element o.index i c next →
      Reaches m e index ⟨o.path ++ [i], c, next⟩

/-- What is reached in a document with this root. -/
def Reached (m : Model G) (root : Element) (o : Occurrence) : Prop :=
  ∃ index, m.root? root.name = some index ∧ m.Reaches root index o

/-- A chain of children can be taken up at its first link. -/
theorem Reaches.under (h : m.HandsOn e index i c next) (ho : m.Reaches c next o) :
    m.Reaches e index (o.under i) := by
  induction ho with
  | self => exact .child .self h
  | child _ hstep ih => exact .child ih hstep

/-- What is reached is the start or is reached from one of its children. -/
theorem reaches_iff :
    m.Reaches e index o ↔
      o = ⟨[], e, index⟩ ∨
        ∃ i c next o', m.HandsOn e index i c next ∧ m.Reaches c next o' ∧ o = o'.under i := by
  constructor
  · intro h
    induction h with
    | self => exact Or.inl rfl
    | @child o i c next _ hstep ih =>
        rcases ih with rfl | ⟨j, c', next', o', hfirst, ho', rfl⟩
        · exact Or.inr ⟨i, c, next, ⟨[], c, next⟩, hstep, .self, rfl⟩
        · exact Or.inr ⟨j, c', next', ⟨o'.path ++ [i], c, next⟩, hfirst, .child ho' hstep, rfl⟩
  · rintro (rfl | ⟨i, c, next, o', hstep, ho', rfl⟩)
    · exact .self
    · exact .under hstep ho'

/-! ## The list -/

mutual
/-- What is reached from an element, in document order. -/
def occurrences (m : Model G) : Element → Nat → List Occurrence
  | .mk tag text children, index =>
    ⟨[], .mk tag text children, index⟩ ::
      match m.body index with
      | .children content =>
        childOccurrences m 0 children (content.place (children.map Element.name))
      | _ => []

/-- What is reached from the children of an element, from position `i` on. -/
def childOccurrences (m : Model G) : Nat → List Element → List (Slot Nat) → List Occurrence
  | i, child :: children, slot :: slots =>
    (match slot.target? with
      | some next => (occurrences m child next).map (Occurrence.under i)
      | none => []) ++ childOccurrences m (i + 1) children slots
  | _, _, _ => []
end

/-- What is reached in a document with this root, in document order. -/
def reached (m : Model G) (root : Element) : List Occurrence :=
  match m.root? root.name with
  | some index => m.occurrences root index
  | none => []

theorem occurrences_eq (m : Model G) (e : Element) (index : Nat) :
    m.occurrences e index =
      ⟨[], e, index⟩ ::
        match m.body index with
        | .children content =>
          m.childOccurrences 0 e.children (content.place (e.children.map Element.name))
        | _ => [] := by
  cases e
  rw [occurrences]
  rfl

/-- The children's part of the list, child by child. -/
theorem mem_childOccurrences :
    ∀ {children : List Element} {slots : List (Slot Nat)} {i : Nat},
      o ∈ m.childOccurrences i children slots ↔
        ∃ j c slot next o', children[j]? = some c ∧ slots[j]? = some slot ∧
          slot.target? = some next ∧ o' ∈ m.occurrences c next ∧ o = o'.under (i + j)
  | [], slots, i => by simp [childOccurrences]
  | _ :: _, [], i => by simp [childOccurrences]
  | child :: children, slot :: slots, i => by
      rw [childOccurrences, List.mem_append, mem_childOccurrences]
      constructor
      · rintro (h | ⟨j, c, s, next, o', hc, hs, hn, ho', rfl⟩)
        · cases hn : slot.target? with
          | none => simp [hn] at h
          | some next =>
              rw [hn] at h
              obtain ⟨o', ho', rfl⟩ := List.mem_map.mp h
              exact ⟨0, child, slot, next, o', rfl, rfl, hn, ho', rfl⟩
        · exact ⟨j + 1, c, s, next, o', hc, hs, hn, ho', by rw [Nat.succ_add_eq_add_succ]⟩
      · rintro ⟨_ | j, c, s, next, o', hc, hs, hn, ho', rfl⟩
        · cases hc; cases hs
          rw [hn]
          exact Or.inl (List.mem_map_of_mem ho')
        · exact Or.inr ⟨j, c, s, next, o', hc, hs, hn, ho', by rw [Nat.succ_add_eq_add_succ]⟩

/-- The start of the list, and behind it what is reached from the children handed on. -/
theorem mem_occurrences_iff :
    o ∈ m.occurrences e index ↔
      o = ⟨[], e, index⟩ ∨
        ∃ i c next o', m.HandsOn e index i c next ∧ o' ∈ m.occurrences c next ∧ o = o'.under i := by
  rw [occurrences_eq, List.mem_cons]
  refine or_congr_right ?_
  constructor
  · intro h
    cases hb : m.body index with
    | children content =>
        rw [hb] at h
        obtain ⟨j, c, slot, next, o', hc, hs, hn, ho', rfl⟩ := mem_childOccurrences.mp h
        exact ⟨j, c, next, o', ⟨content, slot, hb, hc, hs, hn⟩, ho', by rw [Nat.zero_add]⟩
    | isolated _ => simp [hb] at h
    | unsupported => simp [hb] at h
  · rintro ⟨i, c, next, o', ⟨content, slot, hb, hc, hs, hn⟩, ho', rfl⟩
    rw [hb]
    exact mem_childOccurrences.mpr
      ⟨i, c, slot, next, o', hc, hs, hn, ho', by rw [Nat.zero_add]⟩

/-- The list holds exactly what the relation reaches. -/
theorem mem_occurrences : o ∈ m.occurrences e index ↔ m.Reaches e index o := by
  -- each step down shortens the path; the declarations may come round again
  induction hn : o.path.length using Nat.strongRecOn generalizing o e index with
  | ind n ih =>
      rw [mem_occurrences_iff, reaches_iff]
      refine or_congr_right (exists_congr fun i => exists_congr fun c =>
        exists_congr fun next => exists_congr fun o' => and_congr_right fun _ =>
          and_congr_left ?_)
      rintro rfl
      exact ih _ (by rw [← hn]; exact Nat.lt_succ_self _) rfl

theorem mem_reached {root : Element} : o ∈ m.reached root ↔ m.Reached root o := by
  unfold reached Reached
  cases m.root? root.name with
  | none => simp
  | some index => simp [mem_occurrences]

/-! ## The order -/

/-- What is reached from the children from position `i` on lies below one of them. -/
theorem exists_path_of_mem_childOccurrences {children : List Element} {slots : List (Slot Nat)}
    (h : o ∈ m.childOccurrences i children slots) :
    ∃ j q, o.path = j :: q ∧ i ≤ j ∧ j < i + children.length := by
  obtain ⟨j, _, _, _, o', hc, _, _, _, rfl⟩ := mem_childOccurrences.mp h
  have hj : j < children.length := (List.getElem?_eq_some_iff.mp hc).1
  exact ⟨i + j, o'.path, rfl, Nat.le_add_right i j, Nat.add_lt_add_left hj i⟩

/-- One occurrence comes before another in the document. -/
def Precedes (o o' : Occurrence) : Prop :=
  o.path < o'.path

theorem precedes_under {o o' : Occurrence} (h : Precedes o o') :
    Precedes (o.under i) (o'.under i) :=
  List.cons_lt_cons_iff.mpr (Or.inr ⟨rfl, h⟩)

mutual
/-- The list is strictly increasing in document order. -/
theorem pairwise_occurrences (m : Model G) : ∀ (e : Element) (index : Nat),
    (m.occurrences e index).Pairwise Precedes
  | .mk tag text children, index => by
      rw [occurrences_eq, List.pairwise_cons]
      cases m.body index with
      | children content =>
          refine ⟨fun o ho => ?_, pairwise_childOccurrences m children _ 0⟩
          obtain ⟨j, q, hq, _, _⟩ := exists_path_of_mem_childOccurrences ho
          show [] < o.path
          rw [hq]
          exact List.nil_lt_cons j q
      | isolated _ => exact ⟨fun _ h => absurd h List.not_mem_nil, List.Pairwise.nil⟩
      | unsupported => exact ⟨fun _ h => absurd h List.not_mem_nil, List.Pairwise.nil⟩

theorem pairwise_childOccurrences (m : Model G) :
    ∀ (children : List Element) (slots : List (Slot Nat)) (i : Nat),
      (m.childOccurrences i children slots).Pairwise Precedes
  | [], slots, i => by simp [childOccurrences]
  | _ :: _, [], i => by simp [childOccurrences]
  | child :: children, slot :: slots, i => by
      rw [childOccurrences, List.pairwise_append]
      refine ⟨?_, pairwise_childOccurrences m children slots (i + 1), ?_⟩
      · cases slot.target? with
        | none => exact List.Pairwise.nil
        | some next =>
            exact (pairwise_occurrences m child next).map _ (fun _ _ h => precedes_under h)
      · intro o ho o' ho'
        obtain ⟨j, q, hq, hj, _⟩ := exists_path_of_mem_childOccurrences ho'
        cases hn : slot.target? with
        | none => simp [hn] at ho
        | some next =>
            rw [hn] at ho
            obtain ⟨o₁, _, rfl⟩ := List.mem_map.mp ho
            show i :: o₁.path < o'.path
            rw [hq]
            exact List.cons_lt_cons_iff.mpr (Or.inl hj)
end

end Model

end VideoCatalog.Grammar
