import Mathlib.Data.List.Forall2
import VideoCatalog.Grammar.Reading
import VideoCatalog.Proofs.Xml.Place

/-!
# What the readers keep in order

Both readers enter the declaration of an element before they read its content, and come back to
settle its body when the content has been read; in between other declarations are entered and
settled, and readings that come to nothing leave theirs behind. `Recorded` is what holds of the
declarations at every moment of this:

* an entry for a place of the document has a declaration, named after the element there, and if that
  declaration is settled as element-only, its content says what the element says;
* no two places share a declaration;
* a declaration without a place is not checked at all.

What an element says is a parameter here, for the two grammar languages have their own.

`Read.Keeps` is the triple for a reader: it keeps an invariant, forgets no entry and returns a
value with some property. `Read.Keeps.declared` is the one argument about coming back: the body is
settled at the place at which the declaration was entered, whatever was read in between.
-/

namespace VideoCatalog.Grammar

open Xml (Cursor Document)

variable {G α β : Type}

theorem mem_of_lastNamed? {name : String} {named : List (String × Cursor)} {c : Cursor}
    (h : lastNamed? name named = some c) : (name, c) ∈ named := by
  obtain ⟨⟨written, c'⟩, hfind, rfl⟩ := Option.map_eq_some_iff.mp h
  have hname : written = name := by simpa using List.find?_some hfind
  exact List.mem_reverse.mp (hname ▸ List.mem_of_find?_eq_some hfind)

/-! ## Triples -/

namespace Read

/-- A reader keeps an invariant and all entries, and returns a value with some property. -/
def Keeps (I : Collected G → Prop) (x : Read G α) (Q : α → Prop) : Prop :=
  ∀ s a s', I s → x.run s = some (a, s') → I s' ∧ s.known ⊆ s'.known ∧ Q a

/-- The body of an element, given what was read of its content and the text of its own grammar. -/
def settle (compile : Compiler G) (text : Option String) : Option DeclaredContent → Read G (Body G)
  | some content => pure (.children content)
  | none => isolate compile text

/-- How both languages read the declaration of an element: it is entered, its content is read, and
its body is settled. -/
def declared (compile : Compiler G) (path : List Nat) (name : String) (text : Option String)
    (content : Read G (Option DeclaredContent)) : Read G (Nat × String) := do
  match ← known? path with
  | some index => pure (index, name)
  | none =>
    let index ← enter path name
    let found ← content
    let body ← settle compile text found
    setBody index body
    pure (index, name)

namespace Keeps

variable {I : Collected G → Prop} {x : Read G α} {f : α → Read G β} {Q : α → Prop} {R : β → Prop}

theorem tooDeep : Keeps I (tooDeep : Read G α) Q := by
  intro s a s' _ h
  cases h

theorem pure {a : α} (h : Q a) : Keeps I (Pure.pure a : Read G α) Q := by
  intro s a' s' hI hrun
  cases hrun
  exact ⟨hI, List.Subset.refl _, h⟩

theorem bind (hx : Keeps I x Q) (hf : ∀ a, Q a → Keeps I (f a) R) : Keeps I (x >>= f) R := by
  intro s b s'' hI hrun
  rw [StateT.run_bind] at hrun
  obtain ⟨⟨a, s'⟩, hfirst, hsecond⟩ := Option.bind_eq_some_iff.mp hrun
  obtain ⟨hI', hknown, ha⟩ := hx s a s' hI hfirst
  obtain ⟨hI'', hknown', hb⟩ := hf a ha s' b s'' hI' hsecond
  exact ⟨hI'', List.Subset.trans hknown hknown', hb⟩

theorem mono {Q' : α → Prop} (hx : Keeps I x Q) (h : ∀ a, Q a → Q' a) : Keeps I x Q' := by
  intro s a s' hI hrun
  obtain ⟨hI', hknown, ha⟩ := hx s a s' hI hrun
  exact ⟨hI', hknown, h a ha⟩

theorem known? (path : List Nat) : Keeps I (known? path) (fun _ => True) := by
  intro s o s' hI hrun
  cases hrun
  exact ⟨hI, List.Subset.refl _, trivial⟩

/-- If all results are there, each is what it is to be. -/
theorem allOrNone {g : α → Read G (Option β)} {P : α → β → Prop} {as : List α}
    (h : ∀ a ∈ as, Keeps I (g a) (fun o => ∀ b, o = some b → P a b)) :
    Keeps I (allOrNone g as) (fun o => ∀ bs, o = some bs → List.Forall₂ P as bs) := by
  induction as with
  | nil =>
      refine .pure ?_
      rintro bs hbs
      obtain rfl := Option.some.inj hbs
      exact .nil
  | cons a as ih =>
      obtain ⟨ha, has⟩ := List.forall_mem_cons.mp h
      refine bind ha fun o ho => ?_
      cases o with
      | none => exact .pure fun bs hbs => by cases hbs
      | some b =>
          refine bind (ih has) fun os hos => ?_
          cases os with
          | none => exact .pure fun bs hbs => by cases hbs
          | some bs =>
              refine .pure fun bs' hbs' => ?_
              obtain rfl := Option.some.inj hbs'
              exact .cons (ho b rfl) (hos bs rfl)

theorem forEach {g : α → Read G β} {as : List α} (h : ∀ a ∈ as, Keeps I (g a) (fun _ => True)) :
    Keeps I (forEach g as) (fun _ => True) := by
  induction as with
  | nil => exact .pure trivial
  | cons a as ih =>
      obtain ⟨ha, has⟩ := List.forall_mem_cons.mp h
      exact bind ha fun _ _ => bind (ih has) fun _ _ => .pure trivial

end Keeps

end Read

/-! ## Declarations and the places they come from -/

/-- The declarations are in order: `nameOf` says how the declaration of an element is named, `Says`
which contents say what the element says. -/
structure Recorded (document : Document) (nameOf : Cursor → String)
    (Says : Cursor → DeclaredContent → Prop) (s : Collected G) : Prop where
  stands : ∀ {path index}, (path, index) ∈ s.known → ∃ c d, document.Holds c ∧ c.path = path ∧
    s.declarations[index]? = some d ∧ d.name = nameOf c ∧
      ∀ content, d.body = .children content → Says c content
  apart : ∀ {path path' index}, (path, index) ∈ s.known → (path', index) ∈ s.known → path = path'
  rest : ∀ {index d}, s.declarations[index]? = some d →
    (∃ path, (path, index) ∈ s.known) ∨ d.body = .unsupported

namespace Recorded

variable {document : Document} {nameOf : Cursor → String} {Says : Cursor → DeclaredContent → Prop}
  {s : Collected G} {c : Cursor} {path : List Nat} {name : String} {index : Nat}

theorem empty : Recorded document nameOf Says ({} : Collected G) where
  stands h := absurd h List.not_mem_nil
  apart h _ := absurd h List.not_mem_nil
  rest h := by cases h

theorem lt_length (h : Recorded document nameOf Says s) (hknown : (path, index) ∈ s.known) :
    index < s.declarations.length := by
  obtain ⟨_, _, _, _, hd, _⟩ := h.stands hknown
  exact (List.getElem?_eq_some_iff.mp hd).1

/-- A declaration that no element makes. -/
theorem enterUndefined (h : Recorded document nameOf Says s) (name : String) :
    Recorded document nameOf Says
      { s with declarations := s.declarations ++ [{ name := name, body := .unsupported }] } where
  stands := by
    intro path index hknown
    obtain ⟨c, d, hc, hpath, hd, htells⟩ := h.stands hknown
    exact ⟨c, d, hc, hpath, List.getElem?_append_left (h.lt_length hknown) ▸ hd, htells⟩
  apart := h.apart
  rest := by
    intro index d hd
    rcases Nat.lt_or_ge index s.declarations.length with hlt | hge
    · rw [List.getElem?_append_left hlt] at hd
      exact h.rest hd
    · rw [List.getElem?_append_right hge] at hd
      have hmem := List.mem_of_getElem? hd
      exact .inr (by rw [List.mem_singleton.mp hmem])

/-- A declaration whose content is still to be read. -/
theorem enter (h : Recorded document nameOf Says s) (hc : document.Holds c) :
    Recorded document nameOf Says
      { s with
        declarations := s.declarations ++ [{ name := nameOf c, body := .unsupported }]
        known := (c.path, s.declarations.length) :: s.known } where
  stands := by
    intro path' index hknown
    rcases List.mem_cons.mp hknown with heq | hknown
    · obtain ⟨rfl, rfl⟩ := Prod.mk.inj heq
      refine ⟨c, _, hc, rfl, List.getElem?_concat_length, rfl, ?_⟩
      intro content hbody
      cases hbody
    · obtain ⟨c', d, hc', hpath, hd, htells⟩ := h.stands hknown
      exact ⟨c', d, hc', hpath, List.getElem?_append_left (h.lt_length hknown) ▸ hd, htells⟩
  apart := by
    intro path₁ path₂ index h₁ h₂
    rcases List.mem_cons.mp h₁ with heq₁ | h₁ <;> rcases List.mem_cons.mp h₂ with heq₂ | h₂
    · exact (Prod.mk.inj heq₁).1.trans (Prod.mk.inj heq₂).1.symm
    · obtain ⟨-, rfl⟩ := Prod.mk.inj heq₁
      exact absurd (h.lt_length h₂) (Nat.lt_irrefl _)
    · obtain ⟨-, rfl⟩ := Prod.mk.inj heq₂
      exact absurd (h.lt_length h₁) (Nat.lt_irrefl _)
    · exact h.apart h₁ h₂
  rest := by
    intro index d hd
    rcases (h.enterUndefined (nameOf c)).rest hd with ⟨path', hknown⟩ | hbody
    · exact .inl ⟨path', List.mem_cons_of_mem _ hknown⟩
    · exact .inr hbody

/-- The body of a declaration is settled by what the element at its place says. -/
theorem setBody (h : Recorded document nameOf Says s) (hc : document.Holds c)
    (hknown : (c.path, index) ∈ s.known) {body : Body G}
    (hbody : ∀ content, body = .children content → Says c content) :
    Recorded document nameOf Says
      { s with
        declarations := s.declarations.modify index (fun d => { d with body := body }) } where
  stands := by
    intro path' index' hknown'
    obtain ⟨c', d, hc', hpath, hd, hname, htells⟩ := h.stands hknown'
    by_cases heq : index = index'
    · subst heq
      obtain rfl := hc.eq_of_path_eq hc' ((h.apart hknown hknown').trans hpath.symm)
      refine ⟨c, { d with body := body }, hc, hpath, ?_, hname, hbody⟩
      rw [List.getElem?_modify_eq, hd]
      rfl
    · refine ⟨c', d, hc', hpath, ?_, hname, htells⟩
      exact (List.getElem?_modify_ne _ _ heq).trans hd
  apart := h.apart
  rest := by
    intro index' d hd
    by_cases heq : index = index'
    · exact .inl ⟨c.path, heq ▸ hknown⟩
    · exact h.rest ((List.getElem?_modify_ne _ _ heq).symm.trans hd)

end Recorded

namespace Read.Keeps

variable {document : Document} {nameOf : Cursor → String} {Says : Cursor → DeclaredContent → Prop}
  {c : Cursor}

theorem enterUndefined (name : String) :
    Keeps (Recorded document nameOf Says) (enterUndefined name : Read G Nat) (fun _ => True) := by
  intro s index s' hI hrun
  cases hrun
  exact ⟨hI.enterUndefined name, List.Subset.refl _, trivial⟩

/-- The body of an element is made of what was read of its content. -/
theorem settle (compile : Compiler G) (text : Option String) {found : Option DeclaredContent}
    (h : ∀ content, found = some content → Says c content) :
    Keeps (Recorded document nameOf Says) (settle compile text found)
      (fun body => ∀ content, body = .children content → Says c content) := by
  cases found with
  | some content =>
      refine .pure fun content' heq => ?_
      cases heq
      exact h content rfl
  | none =>
      cases text with
      | none => exact .pure fun content heq => by cases heq
      | some text =>
          refine bind (Q := fun _ => True) ?_ fun grammar _ => ?_
          · intro s grammar s' hI hrun
            cases hrun
            exact ⟨⟨hI.stands, hI.apart, hI.rest⟩, List.Subset.refl _, trivial⟩
          · cases grammar with
            | none => exact .pure fun content heq => by cases heq
            | some grammar => exact .pure fun content heq => by cases heq

theorem declared (hc : document.Holds c) (compile : Compiler G) (text : Option String)
    {content : Read G (Option DeclaredContent)}
    (hcontent : Keeps (Recorded document nameOf Says) content
      (fun o => ∀ content, o = some content → Says c content)) :
    Keeps (Recorded document nameOf Says)
      (declared compile c.path (nameOf c) text content) (fun result => result.2 = nameOf c) := by
  refine bind (known? c.path) fun known _ => ?_
  cases known with
  | some index => exact .pure rfl
  | none =>
      intro s result s' hI hrun
      rw [StateT.run_bind] at hrun
      obtain ⟨⟨index, s₁⟩, henter, hrun⟩ := Option.bind_eq_some_iff.mp hrun
      cases henter
      rw [StateT.run_bind] at hrun
      obtain ⟨⟨found, s₂⟩, hfirst, hrun⟩ := Option.bind_eq_some_iff.mp hrun
      obtain ⟨hI₂, hknown₂, hfound⟩ := hcontent _ _ _ (hI.enter hc) hfirst
      rw [StateT.run_bind] at hrun
      obtain ⟨⟨body, s₃⟩, hsecond, hrun⟩ := Option.bind_eq_some_iff.mp hrun
      obtain ⟨hI₃, hknown₃, hbody⟩ := settle compile text hfound _ _ _ hI₂ hsecond
      -- the entry made at the beginning is still there
      have hknown : (c.path, s.declarations.length) ∈ s₃.known :=
        hknown₃ (hknown₂ List.mem_cons_self)
      cases hrun
      refine ⟨hI₃.setBody hc hknown hbody, ?_, rfl⟩
      exact List.Subset.trans (List.subset_cons_self _ _) (List.Subset.trans hknown₂ hknown₃)

end Read.Keeps

end VideoCatalog.Grammar
