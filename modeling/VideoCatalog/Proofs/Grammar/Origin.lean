import VideoCatalog.Proofs.Grammar.Explain
import VideoCatalog.Proofs.Grammar.Placement
import VideoCatalog.Proofs.Grammar.Reading

/-!
# The element of the grammar that a document's element is checked against

A model refers to its declarations by position. Which element of the grammar document the
declaration at a position was entered for, only the reader knows; `ReadFrom` asks it.

If every content says what its element says, and that admits the children of a document's element,
then the listing has nothing to say of the element (`Recorded.account_eq_nil`).
-/

namespace VideoCatalog.Grammar

open Xml (Cursor Document Element)

variable {G : Type} {document : Document} {nameOf : Cursor → String}
  {Says : Cursor → DeclaredContent → Prop} {s : Collected G} {m : Model G} {c c' : Cursor}
  {index : Nat} {content : DeclaredContent}

/-- The declaration at this position was entered for an element of the grammar document. -/
def Collected.EnteredFor (s : Collected G) (document : Document) (c : Cursor) (index : Nat) :
    Prop :=
  document.Holds c ∧ (c.path, index) ∈ s.known

/-- Reading the grammar document through to its end, `roots` entered the declaration at this
position for the element `c`. -/
def ReadFrom (roots : Read G (List Nat)) (document : Document) (c : Cursor) (index : Nat) : Prop :=
  ∃ found s, roots.run {} = some (found, s) ∧ s.EnteredFor document c index

namespace Recorded

/-- A position belongs to one element. -/
theorem eq_of_enteredFor (h : Recorded document nameOf Says s)
    (hc : s.EnteredFor document c index) (hc' : s.EnteredFor document c' index) : c = c' :=
  hc.1.eq_of_path_eq hc'.1 (h.apart hc.2 hc'.2)

theorem content_of_enteredFor (h : Recorded document nameOf Says s)
    (hm : m.declarations = s.declarations) (hc : s.EnteredFor document c index)
    (hbody : m.body index = .children content) :
    Says c content := by
  obtain ⟨c', d, hc', hpath, hd, -, htells⟩ := h.stands hc.2
  obtain rfl := hc'.eq_of_path_eq hc.1 hpath
  rw [Model.body, hm, hd] at hbody
  exact htells content hbody

/-- A declaration that is checked child by child was entered for some element. -/
theorem exists_enteredFor (h : Recorded document nameOf Says s)
    (hm : m.declarations = s.declarations) (hbody : m.body index = .children content) :
    ∃ c, s.EnteredFor document c index := by
  rw [Model.body, hm] at hbody
  cases hd : s.declarations[index]? with
  | none =>
      rw [hd] at hbody
      cases hbody
  | some d =>
      rw [hd] at hbody
      rcases h.rest hd with ⟨path, hknown⟩ | hunsupported
      · obtain ⟨c, -, hc, rfl, -⟩ := h.stands hknown
        exact ⟨c, hc, hknown⟩
      · cases hunsupported.symm.trans hbody

end Recorded

/-- Of an element whose children its content admits there is nothing to say. -/
theorem Model.account_eq_nil {o : Occurrence} (hbody : m.body o.index = .children content)
    (hadmits : content.Admits (o.element.children.map Element.name)) (d : Diagnostics G) :
    m.account d o = [] := by
  have hviolations := violations_eq_nil hadmits (m.nameAt o.index)
  rw [violations_eq_account] at hviolations
  rw [account, account?, hbody]
  simp only [hviolations, List.map_nil, Option.getD_some]

/-- Where all readings keep the declarations in order, and what an element of the grammar says
admits the sequences that it allows, nothing is said of a reached element with such a sequence. -/
theorem Recorded.account_eq_nil {roots : Read G (List Nat)} {found : List Nat}
    {Allows : Cursor → List Element → Prop} {o : Occurrence}
    (hkeeps : roots.Keeps (Recorded document nameOf Says) (fun _ => True))
    (hrun : roots.run {} = some (found, s)) (hm : m.declarations = s.declarations)
    (hallows : ∀ c content es, document.Holds c → Says c content → Allows c es →
      content.Admits (es.map Element.name))
    (d : Diagnostics G) (hbody : m.body o.index = .children content) :
    (∃! c, ReadFrom roots document c o.index) ∧
      ∀ c, ReadFrom roots document c o.index → Allows c o.element.children →
        m.account d o = [] := by
  obtain ⟨hrecorded, -, -⟩ := hkeeps _ _ _ .empty hrun
  have hentered : ∀ c, ReadFrom roots document c o.index → s.EnteredFor document c o.index := by
    rintro c ⟨found', s', hrun', hc⟩
    obtain ⟨-, rfl⟩ := Prod.mk.inj (Option.some.inj (hrun.symm.trans hrun'))
    exact hc
  constructor
  · obtain ⟨c, hc⟩ := hrecorded.exists_enteredFor hm hbody
    exact ⟨c, ⟨found, s, hrun, hc⟩, fun c' hc' => hrecorded.eq_of_enteredFor (hentered c' hc') hc⟩
  · intro c hc hes
    have htells := hrecorded.content_of_enteredFor hm (hentered c hc) hbody
    exact m.account_eq_nil hbody (hallows c content _ (hentered c hc).1 htells hes) d

/-! ## For grammars and documents written down -/

deriving instance DecidableEq for Content, Body, Declaration, Model, Reading

/-- Whether a declaration was entered can be seen by running the reader. -/
theorem ReadFrom.of_run {roots : Read G (List Nat)} (hc : document.Holds c)
    (h : (roots.run {}).any (fun result => result.2.known.contains (c.path, index)) = true) :
    ReadFrom roots document c index := by
  obtain ⟨⟨found, s⟩, hrun, hknown⟩ := (Option.any_eq_true _ _).mp h
  exact ⟨found, s, hrun, hc, List.contains_iff_mem.mp hknown⟩

/-- An element of a document, with no more than a name. -/
def plain (name : String) (children : List Element) : Element :=
  .mk { name := name } "" children

/-- The cursor at a child. -/
def below (c : Cursor) (i : Nat) (e : Element) : Cursor where
  element := e
  ancestors := c.element :: c.ancestors
  path := c.path ++ [i]

/-- A compiler that numbers the grammars. -/
def numbering : Compiler Nat :=
  fun position _ => some position

/-- Nothing is wrong with what is checked on its own. -/
def lenient : Diagnostics Nat where
  violation := Violation.message
  isolated := fun _ _ => some []

end VideoCatalog.Grammar
