import VideoCatalog.Proofs.Grammar.Reached

/-!
# A listing is the sum of its elements' accounts

`Model.explain` walks a document and stops at the first element that it has no answer for. Its
result depends on the walk only through the elements reached: `account?` says what each of them
contributes, and `explainElement_eq_gather` says that a listing is there exactly when every reached
element has an account, and is then the accounts one after another in document order.

An element-only element always has an account. What it says of a child does not depend on what is
below the child, and what is below a child is walked wherever the child stands, unless the model
knows nothing of its name; so nothing hides anything else.
-/

namespace VideoCatalog.Grammar

open Xml (Element)

/-! ## Gathering what every member of a list has to say -/

section Gather

variable {α β : Type}

/-- What the members of a list have to say, one after another; nothing if one has no answer. -/
def gather (f : α → Option (List String)) : List α → Option (List String)
  | [] => some []
  | a :: as => do
    let here ← f a
    let rest ← gather f as
    some (here ++ rest)

theorem gather_eq_none_iff (f : α → Option (List String)) (as : List α) :
    gather f as = none ↔ ∃ a ∈ as, f a = none := by
  induction as with
  | nil => simp [gather]
  | cons a as ih =>
      cases h : f a with
      | none => simp [gather, h]
      | some here =>
          cases hrest : gather f as with
          | none => simpa [gather, h, hrest] using ih.mp hrest
          | some rest => simpa [gather, h, hrest] using ih

theorem gather_eq_some {f : α → Option (List String)} {as : List α} {messages : List String}
    (h : gather f as = some messages) : messages = as.flatMap (fun a => (f a).getD []) := by
  induction as generalizing messages with
  | nil => simpa [gather] using h.symm
  | cons a as ih =>
      cases ha : f a with
      | none => simp [gather, ha] at h
      | some here =>
          cases hrest : gather f as with
          | none => simp [gather, ha, hrest] at h
          | some rest =>
              have : here ++ rest = messages := by simpa [gather, ha, hrest] using h
              rw [← this, List.flatMap_cons, ha, ← ih hrest, Option.getD_some]

theorem gather_append (f : α → Option (List String)) (as bs : List α) :
    gather f (as ++ bs) = (do
      let first ← gather f as
      let second ← gather f bs
      some (first ++ second)) := by
  induction as with
  | nil => simp [gather]
  | cons a as ih =>
      cases h : f a with
      | none => simp [gather, h]
      | some here =>
          cases hrest : gather f as with
          | none => simp [gather, h, ih, hrest]
          | some rest => cases hb : gather f bs <;> simp [gather, h, ih, hrest, hb]

theorem gather_map (f : β → Option (List String)) (g : α → β) (as : List α) :
    gather f (as.map g) = gather (fun a => f (g a)) as := by
  induction as with
  | nil => rfl
  | cons a as ih => simp only [List.map_cons, gather, ih]

end Gather

/-! ## The account of a reached element -/

namespace Model

variable {G : Type}

/-- What is said of a reached element apart from what is below it: the violations of its content, or
the answer of its own grammar about it; nothing if it cannot be checked. -/
def account? (m : Model G) (d : Diagnostics G) (o : Occurrence) : Option (List String) :=
  match m.body o.index with
  | .unsupported => none
  | .isolated grammar => d.isolated grammar o.element
  | .children content =>
    some ((content.account (m.nameAt o.index) (o.element.children.map Element.name)).map
      d.violation)

/-- The messages of the account. -/
def account (m : Model G) (d : Diagnostics G) (o : Occurrence) : List String :=
  (m.account? d o).getD []

/-- An element has no account when there is nothing to check it by, or no answer. -/
theorem account?_eq_none_iff (m : Model G) (d : Diagnostics G) (o : Occurrence) :
    m.account? d o = none ↔
      m.body o.index = .unsupported ∨
        ∃ grammar, m.body o.index = .isolated grammar ∧ d.isolated grammar o.element = none := by
  unfold account?
  cases m.body o.index with
  | unsupported => simp
  | isolated grammar => simp
  | children content => simp

/-- The account of an element does not depend on where the document begins. -/
theorem account?_under (m : Model G) (d : Diagnostics G) (i : Nat) (o : Occurrence) :
    m.account? d (o.under i) = m.account? d o := rfl

mutual
/-- The messages for an element and all below it are the accounts of what is reached from it. -/
theorem explainElement_eq_gather (m : Model G) (d : Diagnostics G) :
    ∀ (e : Element) (index : Nat),
      m.explainElement d e index = gather (m.account? d) (m.occurrences e index)
  | .mk tag text children, index => by
      rw [explainElement, occurrences_eq, gather]
      cases hd : m.declarations[index]? with
      | none => simp [account?, body, hd]
      | some declaration =>
          cases hb : declaration.body with
          | unsupported => simp [account?, body, hd, hb]
          | isolated grammar =>
              cases ha : d.isolated grammar (.mk tag text children) <;>
                simp [account?, body, hd, hb, ha, gather]
          | children content =>
              have below := explainChildren_eq_gather m d children
                (content.place (children.map Element.name)) 0
              have name : m.nameAt index = declaration.name := by simp [nameAt, hd]
              simp [account?, body, hd, hb, name, Element.children, below, violations_eq_account]

theorem explainChildren_eq_gather (m : Model G) (d : Diagnostics G) :
    ∀ (children : List Element) (slots : List (Slot Nat)) (i : Nat),
      m.explainChildren d children slots =
        gather (m.account? d) (m.childOccurrences i children slots)
  | [], slots, i => by simp [explainChildren, childOccurrences, gather]
  | _ :: _, [], i => by simp [explainChildren, childOccurrences, gather]
  | child :: children, slot :: slots, i => by
      have rest := explainChildren_eq_gather m d children slots (i + 1)
      rw [explainChildren, childOccurrences, gather_append]
      cases hn : slot.target? with
      | none => simp [gather, rest]
      | some next =>
          have here := explainElement_eq_gather m d child next
          simp only [gather_map, account?_under, here, rest]
end

theorem explain_eq_gather (m : Model G) (d : Diagnostics G) (root : Element) :
    m.explain d (some root) =
      (m.root? root.name).bind (fun _ => gather (m.account? d) (m.reached root)) := by
  unfold reached
  cases h : m.root? root.name with
  | none => simp [explain, h]
  | some index => simp [explain, h, explainElement_eq_gather]

/-- When a document has no listing. -/
theorem explain_eq_none_iff (m : Model G) (d : Diagnostics G) (root : Element) :
    m.explain d (some root) = none ↔
      m.root? root.name = none ∨
        ∃ o, m.Reached root o ∧
          (m.body o.index = .unsupported ∨
            ∃ grammar, m.body o.index = .isolated grammar ∧
              d.isolated grammar o.element = none) := by
  rw [explain_eq_gather]
  cases h : m.root? root.name with
  | none => simp
  | some index =>
      simp [gather_eq_none_iff, account?_eq_none_iff, mem_reached]

/-- The listing of a document, if it has one. -/
theorem eq_flatMap_account_of_explain {m : Model G} {d : Diagnostics G} {root : Element}
    {messages : List String} (h : m.explain d (some root) = some messages) :
    messages = (m.reached root).flatMap (m.account d) := by
  rw [explain_eq_gather] at h
  obtain ⟨_, _, hg⟩ := Option.bind_eq_some_iff.mp h
  exact gather_eq_some hg

end Model

end VideoCatalog.Grammar
