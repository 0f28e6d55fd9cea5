import VideoCatalog.Grammar.Pattern
import VideoCatalog.Proofs.Xml.QualifiedName

/-!
# What a RelaxNG pattern matches

The child sequences of an element that a pattern matches, by the rules of the language: references
stand for all definitions of their name, combined by choice or by interleaving; several patterns in
one place follow one another; text and data match no child elements.

When a child matches an element pattern is a parameter. The weakest notion is `Named`, that the name
of the child is in the name class of the pattern; the strongest is `Valid`, that the children of the
child match in turn, all the way down. A pattern matches more the more `fits` it accepts, so what
is shown of all sequences matched by name holds of all the others.
-/

namespace VideoCatalog.Grammar.Pattern

open Xml (Cursor Document Element)

/-! ## Name classes -/

/-- The namespace that a name without a qualifier is in. -/
def namespaceAt (c : Cursor) : String :=
  (c.inherited? "ns").getD ""

/-- The name written at the place `c` is the name of the element. -/
def Bears (c : Cursor) (written : String) (e : Element) : Prop :=
  Xml.Expands c (namespaceAt c) (Text.trim written) (e.uri.getD "") e.name

/-- A name written without a qualifier. -/
theorem Bears.of_plain {c : Cursor} {written : String} {e : Element}
    (hwritten : Text.trim written = e.name) (hplain : ':' ∉ e.name.toList)
    (huri : namespaceAt c = e.uri.getD "") : Bears c written e := by
  rw [Bears, hwritten, ← huri]
  exact .plain hplain

/-- The name of the element is in a name class. -/
inductive InClass (e : Element) : Cursor → Prop
  | name {c : Cursor} : c.name = "name" → Bears c c.element.text e → InClass e c
  | anyName {c : Cursor} : c.name = "anyName" → parts c = [] → InClass e c
  | nsName {c : Cursor} : c.name = "nsName" → parts c = [] → e.uri.getD "" = namespaceAt c →
      InClass e c
  | choice {c p : Cursor} : c.name = "choice" → p ∈ parts c → InClass e p → InClass e c

/-- Whether a part may be a name class. -/
def isNameClass (c : Cursor) : Bool :=
  c.name = "name" || c.name = "anyName" || c.name = "nsName" || c.name = "choice"

/-- The name of the element is in the name class of an element pattern, which stands in an attribute
or is the first part. -/
inductive Named (c : Cursor) (e : Element) : Prop
  | written {name : String} : c.element.attribute? "name" = some name → Bears c name e →
      Named c e
  | nameClass {p : Cursor} {rest : List Cursor} : c.element.attribute? "name" = none →
      parts c = p :: rest → InClass e p → Named c e

/-- The patterns that an element pattern has for its content. -/
inductive HasContent (c : Cursor) : List Cursor → Prop
  | written {name : String} : c.element.attribute? "name" = some name → HasContent c (parts c)
  | nameClass {p : Cursor} {rest : List Cursor} : c.element.attribute? "name" = none →
      parts c = p :: rest → isNameClass p = true → HasContent c rest

/-! ## Definitions -/

/-- The definitions of a name. -/
def definitionsOf (source : Source) (name : String) : List Cursor :=
  (definitionParts source.root).filter
    (fun d => (d.element.attribute? "name").map Text.trim = some (Text.trim name))

/-- How definitions of one name are combined: at most one of them does not say so. -/
def CombinedBy (method : String) (definitions : List Cursor) : Prop :=
  (∀ d ∈ definitions, ∀ m, d.element.attribute? "combine" = some m → Text.trim m = method) ∧
    (definitions.filter (fun d => (d.element.attribute? "combine").isNone)).length ≤ 1

/-! ## Patterns -/

/-- The third list is the other two put together, each in its order. -/
inductive Shuffle {α : Type} : List α → List α → List α → Prop
  | nil : Shuffle [] [] []
  | left {a : α} {as bs cs : List α} : Shuffle as bs cs → Shuffle (a :: as) bs (a :: cs)
  | right {b : α} {as bs cs : List α} : Shuffle as bs cs → Shuffle as (b :: bs) (b :: cs)

mutual
/-- A pattern matches a sequence of elements. -/
inductive Matches (source : Source) (fits : Cursor → Element → Prop) :
    Cursor → List Element → Prop
  | element {c : Cursor} {e : Element} : c.name = "element" → fits c e → Matches source fits c [e]
  | chosen {c d : Cursor} {name : String} {es : List Element} :
      c.name = "ref" → c.element.attribute? "name" = some name →
      CombinedBy "choice" (definitionsOf source name) → d ∈ definitionsOf source name →
      InGroup source fits (parts d) es → Matches source fits c es
  | interleaved {c : Cursor} {name : String} {es : List Element} :
      c.name = "ref" → c.element.attribute? "name" = some name →
      CombinedBy "interleave" (definitionsOf source name) → definitionsOf source name ≠ [] →
      InInterleave source fits ((definitionsOf source name).map parts) es → Matches source fits c es
  | absent {c : Cursor} : c.name = "optional" → Matches source fits c []
  | present {c : Cursor} {es : List Element} : c.name = "optional" →
      InGroup source fits (parts c) es → Matches source fits c es
  | zeroOrMore {c : Cursor} {pieces : List (List Element)} : c.name = "zeroOrMore" →
      (∀ es ∈ pieces, InGroup source fits (parts c) es) → Matches source fits c pieces.flatten
  | oneOrMore {c : Cursor} {pieces : List (List Element)} : c.name = "oneOrMore" → pieces ≠ [] →
      (∀ es ∈ pieces, InGroup source fits (parts c) es) → Matches source fits c pieces.flatten
  | group {c : Cursor} {es : List Element} : c.name = "group" →
      InGroup source fits (parts c) es → Matches source fits c es
  | interleave {c : Cursor} {es : List Element} : c.name = "interleave" →
      InInterleave source fits ((parts c).map (fun p => [p])) es → Matches source fits c es
  | choice {c p : Cursor} {es : List Element} : c.name = "choice" → p ∈ parts c →
      Matches source fits p es → Matches source fits c es
  | text {c : Cursor} : c.name = "text" → Matches source fits c []
  | data {c : Cursor} : c.name = "data" → Matches source fits c []

/-- Patterns match one after the other. -/
inductive InGroup (source : Source) (fits : Cursor → Element → Prop) :
    List Cursor → List Element → Prop
  | nil : InGroup source fits [] []
  | cons {p : Cursor} {ps : List Cursor} {es fs : List Element} : Matches source fits p es →
      InGroup source fits ps fs → InGroup source fits (p :: ps) (es ++ fs)

/-- Groups match mixed with one another. -/
inductive InInterleave (source : Source) (fits : Cursor → Element → Prop) :
    List (List Cursor) → List Element → Prop
  | nil : InInterleave source fits [] []
  | cons {group : List Cursor} {groups : List (List Cursor)} {es fs mixed : List Element} :
      InGroup source fits group es → InInterleave source fits groups fs → Shuffle es fs mixed →
      InInterleave source fits (group :: groups) mixed
end

/-- The elements match the content of an element pattern. -/
def ContentMatches (source : Source) (fits : Cursor → Element → Prop) (c : Cursor)
    (es : List Element) : Prop :=
  ∃ content, HasContent c content ∧ InGroup source fits content es

/-- An element matches an element pattern, and so does everything below it. -/
inductive Valid (source : Source) : Cursor → Element → Prop
  | mk {c : Cursor} {e : Element} {content : List Cursor} : Named c e → HasContent c content →
      InGroup source (Valid source) content e.children → Valid source c e

/-! ## What the matched sequences look like, pattern by pattern -/

section Inversion

variable {source : Source} {fits : Cursor → Element → Prop} {c d p : Cursor} {name : String}
  {es fs mixed : List Element}

theorem Shuffle.perm {α : Type} {as bs cs : List α} (h : Shuffle as bs cs) :
    cs.Perm (as ++ bs) := by
  induction h with
  | nil => exact .refl _
  | left _ ih => exact ih.cons _
  | right _ ih => exact (ih.cons _).trans List.perm_middle.symm

theorem Shuffle.eq_of_nil {α : Type} {as cs : List α} (h : Shuffle as [] cs) : cs = as := by
  generalize hbs : ([] : List α) = bs at h
  induction h with
  | nil => rfl
  | left _ ih => rw [ih hbs]
  | right _ _ => cases hbs

theorem InGroup.of_single (h : InGroup source fits [p] es) : Matches source fits p es := by
  cases h with
  | cons hfirst hrest =>
      cases hrest
      rw [List.append_nil]
      exact hfirst

theorem InInterleave.of_single {group : List Cursor} (h : InInterleave source fits [group] es) :
    InGroup source fits group es := by
  cases h with
  | cons hgroup hrest hmixed =>
      cases hrest
      rw [hmixed.eq_of_nil]
      exact hgroup

theorem Matches.of_element (hname : c.name = "element") (h : Matches source fits c es) :
    ∃ e, es = [e] ∧ fits c e := by
  cases h with
  | element _ hfit => exact ⟨_, rfl, hfit⟩
  | _ => simp_all

/-- A reference to a name that is defined once stands for that definition. -/
theorem Matches.of_ref (hname : c.name = "ref") (hwritten : c.element.attribute? "name" = some name)
    (hdefined : definitionsOf source name = [d]) (h : Matches source fits c es) :
    InGroup source fits (parts d) es := by
  cases h with
  | chosen _ hwritten' _ hd hgroup =>
      obtain rfl := Option.some.inj (hwritten.symm.trans hwritten')
      rw [hdefined, List.mem_singleton] at hd
      exact hd ▸ hgroup
  | interleaved _ hwritten' _ _ hgroups =>
      obtain rfl := Option.some.inj (hwritten.symm.trans hwritten')
      rw [hdefined] at hgroups
      exact hgroups.of_single
  | _ => simp_all

theorem Matches.of_group (hname : c.name = "group") (h : Matches source fits c es) :
    InGroup source fits (parts c) es := by
  cases h with
  | group _ hgroup => exact hgroup
  | _ => simp_all

theorem Matches.of_interleave (hname : c.name = "interleave") (h : Matches source fits c es) :
    InInterleave source fits ((parts c).map (fun p => [p])) es := by
  cases h with
  | interleave _ hgroups => exact hgroups
  | _ => simp_all

/-- An operator matches as many pieces as it allows, each of which matches what is inside. -/
theorem Matches.of_operator (hname : isOperator c.name = true) (h : Matches source fits c es) :
    ∃ pieces : List (List Element), es = pieces.flatten ∧
      (∀ piece ∈ pieces, InGroup source fits (parts c) piece) ∧
      (repetition c.name).1 ≤ pieces.length ∧
      ∀ m, (repetition c.name).2 = some m → pieces.length ≤ m := by
  cases h with
  | absent hoptional =>
      exact ⟨[], rfl, by simp, by simp [repetition, hoptional], fun m _ => Nat.zero_le m⟩
  | present hoptional hgroup =>
      exact ⟨[es], by simp, by simpa using hgroup, by simp [repetition, hoptional],
        by simp [repetition, hoptional]⟩
  | @zeroOrMore _ pieces hstar hpieces =>
      exact ⟨pieces, rfl, hpieces, by simp [repetition, hstar], by simp [repetition, hstar]⟩
  | @oneOrMore _ pieces hplus hne hpieces =>
      have hlength : 1 ≤ pieces.length := List.length_pos_iff.mpr hne
      exact ⟨pieces, rfl, hpieces, by simpa [repetition, hplus] using hlength,
        by simp [repetition, hplus]⟩
  | _ => simp_all [isOperator]

/-- Name classes are no patterns. -/
theorem Matches.name_ne (h : Matches source fits c es) :
    (c.name ≠ "name" && c.name ≠ "anyName" && c.name ≠ "nsName") = true := by
  cases h <;> simp_all

theorem InGroup.forall_name_ne {ps : List Cursor} (h : InGroup source fits ps es) :
    ∀ p ∈ ps, (p.name ≠ "name" && p.name ≠ "anyName" && p.name ≠ "nsName") = true := by
  induction ps generalizing es with
  | nil => exact fun _ hp => absurd hp List.not_mem_nil
  | cons p ps ih =>
      cases h with
      | cons hfirst hrest => exact List.forall_mem_cons.mpr ⟨hfirst.name_ne, ih hrest⟩

end Inversion

end VideoCatalog.Grammar.Pattern
