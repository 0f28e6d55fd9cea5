import VideoCatalog.Proofs.Grammar.Building
import VideoCatalog.Proofs.Schema.Ending

/-!
# What is built from an XML Schema

The reader of a schema builds on what has been built (`builds_declaration`): it finds a content
exactly if the declaration is element-only (`IsElementOnly`), which is said here without reading
anything, so that a content of which a part was read before it came to nothing counts for nothing.
References are followed, and only those that lead to no top-level element enter a declaration of
their own, each time that they are read.
-/

namespace VideoCatalog.Grammar.Schema

open Xml (Cursor Document)

/-- A component of a compositor that the model understands: an annotation, or an element with
bounds on its occurrences. -/
def IsItem (p : Cursor) : Prop :=
  isComponent "annotation" p = true ∨ isComponent "element" p = true ∧ (occurs? p).isSome = true

/-- The type of an element declaration says that it has children and no text, in a way that the
model understands. -/
def IsElementOnly (source : Source) (c : Cursor) : Prop :=
  match shape? source c with
  | none => False
  | some .empty => True
  | some (.particles _ components) => ∀ p ∈ components, IsItem p

/-- A reference in the schema document leads to no top-level element of this name. -/
def IsUndefined (document : Document) (source : Source) (name : String) : Prop :=
  ∃ p reference, document.Holds p ∧ p.element.attribute? "ref" = some reference ∧
    Xml.localName reference = name ∧ lastNamed? name source.elements = none

/-- What a schema says about the element declarations in it. -/
def dialect (document : Document) (root : Cursor) : Dialect where
  nameOf := writtenName
  IsElementOnly := IsElementOnly (.ofRoot document root)
  Says := Says (.ofRoot document root)
  textOf? c := standalone? (.ofRoot document root) c (writtenName c)
  IsUndefined := IsUndefined document (.ofRoot document root)

section

variable {G : Type} {document : Document} {root c p : Cursor} {compile : Compiler G}
  {I : Collected G → Prop} {declare : Cursor → Read G (Nat × String)}

/-- The particle of a component, if it has one, refers to a declaration with its name. -/
def Resolved (found : Option (Particle Nat)) (s : Collected G) : Prop :=
  ∀ q, found = some q → s.nameAt? q.target = some q.name

theorem stays_resolved : Stays (Resolved : Option (Particle Nat) → Collected G → Prop) :=
  fun _ _ _ hprecedes h q hq => hprecedes.names (h q hq)

/-- The particle of a component refers to a declaration with its name, and there is none exactly if
the model does not understand the component. -/
theorem builds_particle (hdeclare : ∀ s, Read.Builds I s (declare p) Read.IsDeclared)
    (s : Collected G) :
    Read.Builds I s (particle declare p) (Answers (IsItem p) Resolved) := by
  unfold particle
  split
  · next hnote =>
    refine .pure ⟨.inl hnote, fun q h => ?_⟩
    cases h
  · next hnote =>
    split
    · next helement =>
      refine .pure ?_
      rintro (h | ⟨h, -⟩)
      · exact hnote h
      · simp [h] at helement
    · next helement =>
      have helement : isComponent "element" p = true := by simpa using helement
      cases hoccurs : occurs? p with
      | none =>
          refine .pure ?_
          rintro (h | ⟨-, h⟩)
          · exact hnote h
          · simp [hoccurs] at h
      | some times =>
          refine .bind (hdeclare s) fun result s' _ hdeclared => .pure ⟨?_, fun q h => ?_⟩
          · exact .inr ⟨helement, by simp [hoccurs]⟩
          · obtain rfl := Option.some.inj h
            exact hdeclared

/-- The content of a declaration refers to declarations with the names of its particles, and there
is none exactly if the declaration is not element-only. -/
theorem builds_content (hroot : document.Holds root) (hc : document.Holds c)
    (hdeclare : ∀ p, document.Holds p → ∀ s, Read.Builds I s (declare p) Read.IsDeclared)
    (s : Collected G) :
    Read.Builds I s (content (.ofRoot document root) declare c)
      (Answers (IsElementOnly (.ofRoot document root) c) (fun content s => s.Resolves content)) := by
  unfold content IsElementOnly
  cases hshape : shape? (.ofRoot document root) c with
  | none => exact .pure fun h => h
  | some shape =>
      cases shape with
      | empty => exact .pure ⟨trivial, fun p hp => absurd hp List.not_mem_nil⟩
      | particles ordered components =>
          have hall := Read.Builds.allOrNone stays_resolved fun p hp =>
            builds_particle (hdeclare p (holds_of_shape? hroot hc hshape hp))
          refine .bind (hall s) fun o s' _ ho => ?_
          cases o with
          | none => exact .pure ho
          | some found =>
              obtain ⟨hitems, hfound⟩ := ho
              refine .pure ⟨hitems, fun q hq => ?_⟩
              obtain ⟨entry, hentry, hq⟩ := List.mem_filterMap.mp hq
              exact hfound entry hentry q hq

/-- Reading an element declaration builds on what has been built, and comes to a position with the
name that the reader has for it. -/
theorem builds_declaration (hroot : document.Holds root) (compile : Compiler G) :
    ∀ (depth : Nat) (c : Cursor), document.Holds c → ∀ pending s,
      Read.Builds (Built document (dialect document root) compile pending) s
        (declaration (.ofRoot document root) compile depth c)
        (fun result s => Called (.ofRoot document root) c result.2 ∧ Read.IsDeclared result s)
  | 0, _, _, _, _ => .tooDeep
  | depth + 1, c, hc, pending, s => by
      rcases reference_cases (.ofRoot document root) c with
        href | ⟨reference, href, hnone⟩ | ⟨target, htarget⟩
      · rw [declaration_succ _ _ _ _ href]
        have hcontent : ∀ pending s,
            Read.Builds (Built document (dialect document root) compile pending) s
              (content (.ofRoot document root)
                (declaration (.ofRoot document root) compile depth) c)
              (Answers (IsElementOnly (.ofRoot document root) c) (fun content s =>
                Says (.ofRoot document root) c content ∧ s.Resolves content)) := by
          intro pending s
          have hdeclare := fun p hp =>
            builds_declaration hroot compile depth p hp pending
          have hsays := keeps_content hroot hc fun p hp =>
            Read.Builds.keeps fun s => (hdeclare p hp s).mono fun _ _ h => h.1
          have hbuilds := builds_content hroot hc (fun p hp s =>
            (hdeclare p hp s).mono fun _ _ h => h.2) s
          refine (hbuilds.and_keeps hsays).mono fun o s' h => ?_
          cases o with
          | none => exact h.2
          | some content => exact ⟨h.2.1, h.1 content rfl, h.2.2⟩
        refine (Read.Builds.declared (L := dialect document root) hc hcontent s).mono ?_
        rintro result s' ⟨hname, hdeclared⟩
        exact ⟨hname ▸ .declared href, hdeclared⟩
      · rw [declaration_of_undefined href hnone]
        have hundefined : (dialect document root).IsUndefined (Xml.localName reference) :=
          ⟨c, reference, hc, href, rfl, hnone⟩
        refine .bind (.enterUndefined hundefined s) fun index s' _ hdeclared => .pure ?_
        exact ⟨.undefined href hnone, hdeclared⟩
      · rw [declaration_of_leadsTo htarget]
        have hholds : document.Holds target :=
          hroot.child (List.mem_filter.mp htarget.mem_children).1
        refine (builds_declaration hroot compile depth target hholds pending s).mono ?_
        rintro result s' ⟨hcalled, hdeclared⟩
        obtain ⟨reference, href, hfound⟩ := htarget
        exact ⟨.referred href hfound hcalled, hdeclared⟩

/-- Reading the top-level elements builds on what has been built, and comes to positions of
declarations. -/
theorem builds_declarations (hroot : document.Holds root) (compile : Compiler G) (depth : Nat)
    (s : Collected G) :
    Read.Builds (Built document (dialect document root) compile []) s
      (declarations (.ofRoot document root) compile depth)
      (fun roots s => ∀ index ∈ roots, ∃ name, s.nameAt? index = some name) := by
  have htop : ∀ p ∈ root.children.filter (isComponent "element"), ∀ s,
      Read.Builds (Built document (dialect document root) compile []) s
        (declaration (.ofRoot document root) compile depth p) Read.IsDeclared := by
    intro p hp s
    have hholds : document.Holds p := hroot.child (List.mem_filter.mp hp).1
    exact (builds_declaration hroot compile depth p hholds [] s).mono fun _ _ h => h.2
  refine .bind (.forEach Read.stays_isDeclared htop s) fun found s' _ hfound => ?_
  refine .pure fun index hindex => ?_
  obtain ⟨result, hresult, rfl⟩ := List.mem_map.mp hindex
  exact ⟨result.2, hfound result hresult⟩

end

end VideoCatalog.Grammar.Schema
