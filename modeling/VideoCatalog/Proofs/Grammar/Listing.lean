import VideoCatalog.Proofs.Grammar.Locality

/-!
# What a listing accounts for

The main statement about `Model.explain`, for every model, recursive ones included, every document
and every way of wording violations and of checking elements on their own:

* a document has no listing exactly when it has no root, its root is not declared, or some reached
  element cannot be checked or gets no answer from its own grammar;
* a listing is the accounts of the reached elements, each once, in document order;
* two documents that are alike but below one child of a reached element-only element have listings
  that agree but for the accounts below that child.

`Model.account?` says what an account is, and `DeclaredContent.account` what it is for an
element-only element.
-/

namespace VideoCatalog.Grammar

open Xml (Element)

namespace Model

variable {G : Type}

/-- The listings around a change below one child. -/
theorem explain_split {m : Model G} {d : Diagnostics G} {root root' : Element} {o : Occurrence}
    {content : DeclaredContent} {i : Nat} {messages messages' : List String}
    (ho : m.Reached root o) (hb : m.body o.index = .children content)
    (h : DifferAt SameName (o.path ++ [i]) root root')
    (hm : m.explain d (some root) = some messages)
    (hm' : m.explain d (some root') = some messages') :
    ∃ before after,
      messages = before ++ m.accountsBelow d (o.path ++ [i]) (m.reached root) ++ after ∧
        messages' = before ++ m.accountsBelow d (o.path ++ [i]) (m.reached root') ++ after := by
  obtain ⟨index, hindex, hr⟩ := ho
  have hindex' : m.root? root'.name = some index := h.name_eq ▸ hindex
  have hopen : ∀ q j, o.path ++ [i] = q ++ [j] → m.OpenAt root index q := by
    intro q j heq
    obtain ⟨rfl, _⟩ := List.append_inj' heq rfl
    exact ⟨o.element, o.index, content, hr, hb⟩
  rw [eq_flatMap_account_of_explain hm, eq_flatMap_account_of_explain hm']
  simp only [reached, hindex, hindex']
  exact accounts_split m d h index hopen

/-- A listing accounts for every reached element once, and nothing in it masks anything else. -/
theorem explain_accounts_for_reached (m : Model G) (d : Diagnostics G) :
    m.explain d none = none ∧
    (∀ root : Element,
      m.explain d (some root) = none ↔
        m.root? root.name = none ∨
          ∃ o, m.Reached root o ∧
            (m.body o.index = .unsupported ∨
              ∃ grammar, m.body o.index = .isolated grammar ∧
                d.isolated grammar o.element = none)) ∧
    (∀ (root : Element) (messages : List String),
      m.explain d (some root) = some messages →
        messages = (m.reached root).flatMap (m.account d) ∧
          (∀ o, o ∈ m.reached root ↔ m.Reached root o) ∧
          (m.reached root).Pairwise Precedes) ∧
    (∀ (root root' : Element) (o : Occurrence) (content : DeclaredContent) (i : Nat)
        (messages messages' : List String),
      m.Reached root o → m.body o.index = .children content →
      DifferAt SameName (o.path ++ [i]) root root' →
      m.explain d (some root) = some messages → m.explain d (some root') = some messages' →
        ∃ before after,
          messages = before ++ m.accountsBelow d (o.path ++ [i]) (m.reached root) ++ after ∧
            messages' = before ++ m.accountsBelow d (o.path ++ [i]) (m.reached root') ++ after) := by
  refine ⟨rfl, explain_eq_none_iff m d, ?_, ?_⟩
  · intro root messages h
    refine ⟨eq_flatMap_account_of_explain h, fun _ => mem_reached, ?_⟩
    unfold reached
    cases m.root? root.name with
    | none => exact List.Pairwise.nil
    | some index => exact pairwise_occurrences m root index
  · intro root root' o content i messages messages' ho hb h hm hm'
    exact explain_split ho hb h hm hm'

end Model

/-! ## A recursive model -/

namespace Nested

/-- A pair holds one `a` and then pairs again; an `a` is checked on its own. -/
def model : Model Unit where
  declarations :=
    [{ name := "pair"
       body := .children { ordered := true, particles := [⟨1, "a", 1, some 1⟩, ⟨0, "pair", 0, none⟩] } },
     { name := "a", body := .isolated () }]
  roots := [0]

/-- The check of an `a` on its own finds fault with every text. -/
def diagnostics : Diagnostics Unit where
  violation := Violation.message
  isolated := fun _ e => some ["no " ++ e.text]

/-- An element without children. -/
def leaf (name text : String) : Element :=
  .mk { name := name } text []

/-- A pair with a stray element behind an inner pair. -/
def document (inner : List Element) : Element :=
  .mk { name := "pair" } "" ([leaf "a" "x"] ++ .mk { name := "pair" } "" inner :: [leaf "c" ""])

/-- The stray element is listed whatever is wrong inside the inner pair. -/
theorem explain_accounts_for_reached_nested :
    model.Reached (document [leaf "a" "y"]) ⟨[], document [leaf "a" "y"], 0⟩ ∧
      model.explain diagnostics (some (document [leaf "a" "y"])) =
        some ["Element 'c': This element is not expected in 'pair'.", "no x", "no y"] ∧
      model.explain diagnostics (some (document [])) =
        some ["Element 'c': This element is not expected in 'pair'.", "no x",
          "Element 'pair': Missing child element 'a'."] ∧
      ∃ before after,
        ["Element 'c': This element is not expected in 'pair'.", "no x", "no y"] =
            before ++ model.accountsBelow diagnostics [1] (model.reached (document [leaf "a" "y"]))
              ++ after ∧
          ["Element 'c': This element is not expected in 'pair'.", "no x",
              "Element 'pair': Missing child element 'a'."] =
            before ++ model.accountsBelow diagnostics [1] (model.reached (document [])) ++ after := by
  have hroot : model.Reached (document [leaf "a" "y"]) ⟨[], document [leaf "a" "y"], 0⟩ :=
    ⟨0, rfl, .self⟩
  have hfirst : model.explain diagnostics (some (document [leaf "a" "y"])) =
      some ["Element 'c': This element is not expected in 'pair'.", "no x", "no y"] := by
    rfl
  have hsecond : model.explain diagnostics (some (document [])) =
      some ["Element 'c': This element is not expected in 'pair'.", "no x",
        "Element 'pair': Missing child element 'a'."] := by
    rfl
  have hdiffer : DifferAt SameName ([leaf "a" "x"].length :: []) (document [leaf "a" "y"])
      (document []) :=
    .inside (.here rfl)
  exact ⟨hroot, hfirst, hsecond,
    (Model.explain_accounts_for_reached model diagnostics).2.2.2 _ _ _ _ 1 _ _ hroot rfl hdiffer
      hfirst hsecond⟩

end Nested

end VideoCatalog.Grammar
