import VideoCatalog.Grammar.Pattern
import VideoCatalog.Proofs.Grammar.Reading

/-!
# What the reader makes of a pattern

A particle that the reader makes of a pattern stems from one element pattern, given in place or by
reference, possibly inside one occurrence operator (`Stem`). The content of an element pattern that
is read as element-only consists of such particles, one for each item of its shape (`Says`).

`keeps_declaration` is the induction over the depth of the reader; with it all declarations of a
grammar say what the element patterns say that they come from.
-/

namespace VideoCatalog.Grammar.Pattern

open Xml (Cursor Document)

variable {G : Type} {document : Document} {source : Source} {root c p t : Cursor} {name : String}

/-! ## Particles -/

/-- The element pattern that a pattern stands for, itself or by reference. -/
inductive Target (source : Source) : Cursor → Cursor → Prop
  | element {c : Cursor} : c.name = "element" → Target source c c
  | ref {c t : Cursor} {name : String} : c.name = "ref" →
      c.element.attribute? "name" = some name → definedElement? source name = some t →
      Target source c t

/-- The particle stems from the pattern. -/
inductive Stem (source : Source) (c : Cursor) (q : Particle Nat) : Prop
  | once {t : Cursor} : Target source c t → q.name = patternName t →
      (q.min, q.max) = (1, some 1) → Stem source c q
  | repeated {p t : Cursor} : isOperator c.name = true → parts c = [p] → Target source p t →
      q.name = patternName t → (q.min, q.max) = repetition c.name → Stem source c q

/-- The content says what the element pattern says. -/
def Says (source : Source) (c : Cursor) (content : DeclaredContent) : Prop :=
  content.ordered = (shape c).1 ∧ List.Forall₂ (Stem source) (shape c).2 content.particles

theorem repetition_ne_once (operator : String) : repetition operator ≠ (1, some 1) := by
  unfold repetition
  split
  · decide
  · split <;> decide

/-! ## The cursors of the reader stand in the document -/

theorem holds_of_mem_parts (h : document.Holds c) (hp : p ∈ parts c) : document.Holds p :=
  h.child (List.mem_filter.mp hp).1

theorem holds_of_mem_shape (h : document.Holds c) (hp : p ∈ (shape c).2) : document.Holds p := by
  have hcontent : ∀ q ∈ contentParts c, document.Holds q :=
    fun q hq => holds_of_mem_parts h (List.mem_filter.mp hq).1
  unfold shape at hp
  split at hp
  · next single heq =>
    have hsingle : document.Holds single := hcontent single (heq ▸ List.mem_singleton_self single)
    split at hp
    · exact holds_of_mem_parts hsingle hp
    · split at hp
      · exact holds_of_mem_parts hsingle hp
      · exact List.mem_singleton.mp hp ▸ hsingle
  · exact hcontent p hp

/-- A definition that consists of an element pattern is a definition of the grammar. -/
theorem exists_definition (h : definedElement? (Source.ofRoot document root) name = some t) :
    ∃ d ∈ definitionParts root, d.element.attribute? "name" = some name ∧ parts d = [t] ∧
      t.name = "element" := by
  obtain ⟨d, hd, hparts⟩ := Option.bind_eq_some_iff.mp h
  obtain ⟨part, hpart, hentry⟩ := List.mem_filterMap.mp (mem_of_lastNamed? hd)
  obtain ⟨written, hwritten, heq⟩ := Option.map_eq_some_iff.mp hentry
  obtain ⟨rfl, rfl⟩ := Prod.mk.inj heq
  refine ⟨part, hpart, hwritten, ?_⟩
  split at hparts
  · next element hsingle =>
    split at hparts
    · next helement =>
      obtain rfl := Option.some.inj hparts
      exact ⟨hsingle, helement⟩
    · cases hparts
  · cases hparts

theorem holds_of_mem_definitionParts (hroot : document.Holds root)
    (h : p ∈ definitionParts root) : document.Holds p := by
  unfold definitionParts at h
  split at h
  · exact holds_of_mem_parts hroot (List.mem_filter.mp h).1
  · cases h

theorem Target.holds (hroot : document.Holds root) (h : Target (.ofRoot document root) c t)
    (hc : document.Holds c) : document.Holds t := by
  cases h with
  | element _ => exact hc
  | ref _ _ hdefined =>
      obtain ⟨d, hd, -, hparts, -⟩ := exists_definition hdefined
      exact holds_of_mem_parts (holds_of_mem_definitionParts hroot hd)
        (hparts ▸ List.mem_singleton_self t)

/-! ## The reader -/

section Steps

variable {I : Collected G → Prop} {declare : Cursor → Read G (Nat × String)}

theorem keeps_once (h : Read.Keeps I (declare t) (fun result => result.2 = patternName t)) :
    Read.Keeps I (once declare t)
      (fun o => ∀ q, o = some q → q.name = patternName t ∧ (q.min, q.max) = (1, some 1)) := by
  refine .bind h fun result hname => .pure fun q hq => ?_
  obtain rfl := Option.some.inj hq
  exact ⟨hname, rfl⟩

/-- What is read of a pattern stems from it. -/
theorem keeps_particle (hdeclare : ∀ c t, Target source c t → document.Holds c →
      Read.Keeps I (declare t) (fun result => result.2 = patternName t)) :
    ∀ (depth : Nat) (c : Cursor), document.Holds c →
      Read.Keeps I (particle source declare depth c) (fun o => ∀ q, o = some q → Stem source c q)
  | 0, _, _ => .tooDeep
  | depth + 1, c, hc => by
      have honce : ∀ t, Target source c t → Read.Keeps I (once declare t)
          (fun o => ∀ q, o = some q → Stem source c q) := by
        intro t ht
        refine (keeps_once (hdeclare c t ht hc)).mono fun o ho q hq => ?_
        obtain ⟨hname, htimes⟩ := ho q hq
        exact .once ht hname htimes
      have hnone : Read.Keeps I (pure none) (fun o => ∀ q, o = some q → Stem source c q) :=
        .pure fun q hq => by cases hq
      unfold particle
      split
      · next helement => exact honce c (.element helement)
      · split
        · next href =>
          cases hwritten : c.element.attribute? "name" with
          | none => exact hnone
          | some name =>
              rw [Option.bind_some]
              cases hdefined : definedElement? source name with
              | none => exact hnone
              | some t => exact honce t (.ref href hwritten hdefined)
        · split
          · next hoperator =>
            split
            · next single hparts =>
              have hsingle : document.Holds single :=
                holds_of_mem_parts hc (hparts ▸ List.mem_singleton_self single)
              refine .bind (keeps_particle hdeclare depth single hsingle) fun o ho => ?_
              cases o with
              | none => exact hnone
              | some base =>
                  dsimp only
                  split
                  · next htimes =>
                    refine .pure fun q hq => ?_
                    obtain rfl := Option.some.inj hq
                    -- an operator inside the operator would have been read with other bounds
                    cases ho base rfl with
                    | once ht hname _ => exact .repeated hoperator hparts ht hname rfl
                    | repeated _ _ _ _ hinner =>
                        exact absurd (hinner.symm.trans htimes) (repetition_ne_once _)
                  · exact hnone
            · exact hnone
          · exact hnone

/-- What is read of the content of an element pattern says what that says. -/
theorem keeps_content (hdeclare : ∀ c t, Target source c t → document.Holds c →
      Read.Keeps I (declare t) (fun result => result.2 = patternName t)) (depth : Nat)
    (hc : document.Holds c) :
    Read.Keeps I (content source declare depth c)
      (fun o => ∀ content, o = some content → Says source c content) := by
  have hnone : Read.Keeps I (pure none)
      (fun o => ∀ content, o = some content → Says source c content) :=
    .pure fun content h => by cases h
  unfold content
  dsimp only
  split
  · exact hnone
  · refine .bind (Read.Keeps.allOrNone (P := Stem source) fun p hp =>
      keeps_particle hdeclare depth p (holds_of_mem_shape hc hp)) fun o ho => ?_
    cases o with
    | none => exact hnone
    | some particles =>
        refine .pure fun content h => ?_
        obtain rfl := Option.some.inj h
        exact ⟨rfl, ho particles rfl⟩

end Steps

/-- The declarations collected so far say what the element patterns say that they come from. -/
abbrev Faithful (document : Document) (root : Cursor) : Collected G → Prop :=
  Recorded document patternName (Says (.ofRoot document root))

theorem declaration_succ (source : Source) (compile : Compiler G) (depth : Nat) (c : Cursor) :
    declaration source compile (depth + 1) c =
      Read.declared compile c.path (patternName c) (standalone? source c)
        (content source (declaration source compile depth) depth c) := by
  rw [declaration, Read.declared]
  refine bind_congr fun known => ?_
  cases known with
  | some index => rfl
  | none =>
      refine bind_congr fun index => bind_congr fun found => ?_
      cases found <;> rfl

/-- Reading an element pattern keeps the declarations faithful. -/
theorem keeps_declaration (hroot : document.Holds root) (compile : Compiler G) :
    ∀ (depth : Nat) (c : Cursor), document.Holds c →
      Read.Keeps (Faithful document root)
        (declaration (.ofRoot document root) compile depth c)
        (fun result => result.2 = patternName c)
  | 0, _, _ => .tooDeep
  | depth + 1, c, hc => by
      -- the element patterns in the content are read one level deeper
      have hdeclare : ∀ p t, Target (.ofRoot document root) p t → document.Holds p →
          Read.Keeps (Faithful document root)
            (declaration (.ofRoot document root) compile depth t)
            (fun result => result.2 = patternName t) :=
        fun p t ht hp => keeps_declaration hroot compile depth t (ht.holds hroot hp)
      rw [declaration_succ]
      exact .declared hc compile _ (keeps_content hdeclare depth hc)

end VideoCatalog.Grammar.Pattern
