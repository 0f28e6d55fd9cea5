import VideoCatalog.Proofs.Grammar.Building
import VideoCatalog.Proofs.Pattern.Ending

/-!
# What is built from a RelaxNG grammar

The reader of a pattern grammar builds on what has been built (`builds_declaration`): it finds a
content exactly if the pattern is element-only (`IsElementOnly`), which says of every item of the
content that some particle would stem from it, whatever has been read of the others. References to
nothing enter nothing here, so every declaration is that of an element pattern.
-/

namespace VideoCatalog.Grammar.Pattern

open Xml (Cursor Document)

/-- A pattern in the content of an element pattern that the model understands: one element pattern,
in place or by reference, possibly inside one occurrence operator. -/
def IsItem (source : Source) (p : Cursor) : Prop :=
  ∃ q, Stem source p q

/-- The content of an element pattern is a row of patterns that the model understands. -/
def IsElementOnly (source : Source) (c : Cursor) : Prop :=
  (shape c).2 ≠ [] ∧ ∀ p ∈ (shape c).2, IsItem source p

/-- What a pattern grammar says about the element patterns in it. -/
def dialect (document : Document) (root : Cursor) : Dialect where
  nameOf := patternName
  IsElementOnly := IsElementOnly (.ofRoot document root)
  Says := Says (.ofRoot document root)
  textOf? := standalone? (.ofRoot document root)
  IsUndefined _ := False

/-! ## Items -/

section

variable {document : Document} {source : Source} {root c p t : Cursor}

/-- A pattern stands for what a reference or an element pattern names directly, or it is an
operator. -/
theorem IsItem.cases (h : IsItem source c) :
    (∃ t, Target source c t) ∨
      isOperator c.name = true ∧ ∃ p t, parts c = [p] ∧ Target source p t := by
  obtain ⟨q, hq⟩ := h
  cases hq with
  | once ht _ _ => exact .inl ⟨_, ht⟩
  | repeated hoperator hparts ht _ _ => exact .inr ⟨hoperator, _, _, hparts, ht⟩

theorem Target.isItem (h : Target source c t) : IsItem source c :=
  ⟨{ target := 0, name := patternName t, min := 1, max := some 1 }, .once h rfl rfl⟩

theorem Target.name_eq (h : Target source c t) : c.name = "element" ∨ c.name = "ref" := by
  cases h with
  | element hname => exact .inl hname
  | ref hname _ _ => exact .inr hname

/-- No operator stands for one element pattern. -/
theorem Target.isOperator_eq_false (h : Target source c t) : isOperator c.name = false := by
  rcases h.name_eq with hname | hname
  · rw [hname]
    rfl
  · rw [hname]
    rfl

/-- An operator is understood exactly if one pattern inside it stands for an element pattern. -/
theorem isItem_iff_of_operator (hoperator : isOperator c.name = true) :
    IsItem source c ↔ ∃ p t, parts c = [p] ∧ Target source p t := by
  constructor
  · intro h
    rcases h.cases with ⟨t, ht⟩ | ⟨-, h⟩
    · rw [ht.isOperator_eq_false] at hoperator
      cases hoperator
    · exact h
  · rintro ⟨p, t, hparts, ht⟩
    exact ⟨⟨0, patternName t, _, _⟩, .repeated hoperator hparts ht rfl rfl⟩

end

/-! ## The reader -/

section

variable {G : Type} {document : Document} {source : Source} {root c t : Cursor}
  {compile : Compiler G} {I : Collected G → Prop} {declare : Cursor → Read G (Nat × String)}

/-- The particle refers to a declaration with its name. -/
def Resolved (q : Particle Nat) (s : Collected G) : Prop :=
  s.nameAt? q.target = some q.name

theorem stays_resolved : Stays (Resolved : Particle Nat → Collected G → Prop) :=
  fun _ _ _ hprecedes h => hprecedes.names h

theorem builds_once (hdeclare : ∀ s, Read.Builds I s (declare t) Read.IsDeclared)
    (ht : Target source c t) (s : Collected G) :
    Read.Builds I s (once declare t) (Answers (IsItem source c) Resolved) :=
  .bind (hdeclare s) fun _ _ _ hdeclared => .pure ⟨ht.isItem, hdeclared⟩

/-- The particle of a pattern refers to a declaration with its name, and there is none exactly if
the model does not understand the pattern. -/
theorem builds_particle
    (hdeclare : ∀ c t, Target source c t → document.Holds c →
      ∀ s, Read.Builds I s (declare t) Read.IsDeclared)
    (hcalled : ∀ c t, Target source c t → document.Holds c →
      Read.Keeps I (declare t) (fun result => result.2 = patternName t)) :
    ∀ (depth : Nat) (c : Cursor), document.Holds c → ∀ s,
      Read.Builds I s (particle source declare depth c) (Answers (IsItem source c) Resolved)
  | 0, _, _, _ => .tooDeep
  | depth + 1, c, hc, s => by
      unfold particle
      split
      · next helement =>
        have ht : Target source c c := .element helement
        exact builds_once (hdeclare c c ht hc) ht s
      · next helement =>
        split
        · next href =>
          cases htarget : (c.element.attribute? "name").bind (definedElement? source) with
          | some t =>
              have ht := target_of_bind href htarget
              exact builds_once (hdeclare c t ht hc) ht s
          | none =>
              refine .pure fun hitem => ?_
              rcases hitem.cases with ⟨t, ht⟩ | ⟨hoperator, -⟩
              · cases ht with
                | element hname => exact helement hname
                | ref _ hwritten hdefined => simp [hwritten, hdefined] at htarget
              · rw [href] at hoperator
                cases hoperator
        · next href =>
          split
          · next hoperator =>
            have hiff : IsItem source c ↔ ∃ p t, parts c = [p] ∧ Target source p t :=
              isItem_iff_of_operator hoperator
            split
            · next single hparts =>
              have hsingle : document.Holds single :=
                holds_of_mem_parts hc (hparts ▸ List.mem_singleton_self single)
              have hinner := builds_particle hdeclare hcalled depth single hsingle s
              have hstem := keeps_particle hcalled depth single hsingle
              refine .bind (hinner.and_keeps hstem) fun o s' _ ho => ?_
              obtain ⟨hstem, ho⟩ := ho
              cases o with
              | none =>
                  refine .pure fun hitem => ho ?_
                  obtain ⟨p, t, hparts', ht⟩ := hiff.mp hitem
                  obtain ⟨rfl, -⟩ := List.cons.inj (hparts.symm.trans hparts')
                  exact ht.isItem
              | some base =>
                  obtain ⟨-, hresolved⟩ := ho
                  dsimp only
                  split
                  · next htimes =>
                    refine .pure ⟨hiff.mpr ?_, hresolved⟩
                    cases hstem base rfl with
                    | once ht _ _ => exact ⟨single, _, hparts, ht⟩
                    | repeated _ _ _ _ hinner =>
                        exact absurd (hinner.symm.trans htimes) (repetition_ne_once _)
                  · next htimes =>
                    refine .pure fun hitem => ?_
                    obtain ⟨p, t, hparts', ht⟩ := hiff.mp hitem
                    obtain ⟨rfl, -⟩ := List.cons.inj (hparts.symm.trans hparts')
                    -- an element pattern has been read as a particle that occurs once
                    cases hstem base rfl with
                    | once _ _ honce => exact htimes honce
                    | repeated hinner _ _ _ _ =>
                        rw [ht.isOperator_eq_false] at hinner
                        cases hinner
            · next hmany =>
              refine .pure fun hitem => ?_
              obtain ⟨p, t, hparts, -⟩ := hiff.mp hitem
              exact hmany p hparts
          · next hoperator =>
            refine .pure fun hitem => ?_
            rcases hitem.cases with ⟨t, ht⟩ | ⟨h, -⟩
            · rcases ht.name_eq with hname | hname
              · exact helement hname
              · exact href hname
            · exact hoperator h

/-- The content of an element pattern refers to declarations with the names of its particles, and
there is none exactly if the pattern is not element-only. -/
theorem builds_content
    (hdeclare : ∀ c t, Target source c t → document.Holds c →
      ∀ s, Read.Builds I s (declare t) Read.IsDeclared)
    (hcalled : ∀ c t, Target source c t → document.Holds c →
      Read.Keeps I (declare t) (fun result => result.2 = patternName t)) (depth : Nat)
    (hc : document.Holds c) (s : Collected G) :
    Read.Builds I s (content source declare depth c)
      (Answers (IsElementOnly source c) (fun content s => s.Resolves content)) := by
  unfold content
  dsimp only
  split
  · next hempty => exact .pure fun honly => honly.1 (List.isEmpty_iff.mp hempty)
  · next hitems =>
    have hitems : (shape c).2 ≠ [] := by simpa using hitems
    have hall := Read.Builds.allOrNone stays_resolved fun p hp =>
      builds_particle hdeclare hcalled depth p (holds_of_mem_shape hc hp)
    refine .bind (hall s) fun o s' _ ho => ?_
    cases o with
    | none => exact .pure fun honly => ho honly.2
    | some particles => exact .pure ⟨⟨hitems, ho.1⟩, ho.2⟩

/-- Reading an element pattern builds on what has been built, and comes to a position with the name
of the pattern. -/
theorem builds_declaration (hroot : document.Holds root) (compile : Compiler G) :
    ∀ (depth : Nat) (c : Cursor), document.Holds c → ∀ pending s,
      Read.Builds (Built document (dialect document root) compile pending) s
        (declaration (.ofRoot document root) compile depth c)
        (fun result s => result.2 = patternName c ∧ Read.IsDeclared result s)
  | 0, _, _, _, _ => .tooDeep
  | depth + 1, c, hc, pending, s => by
      have hcontent : ∀ pending s,
          Read.Builds (Built document (dialect document root) compile pending) s
            (content (.ofRoot document root)
              (declaration (.ofRoot document root) compile depth) depth c)
            (Answers (IsElementOnly (.ofRoot document root) c) (fun content s =>
              Says (.ofRoot document root) c content ∧ s.Resolves content)) := by
        intro pending s
        have hdeclare := fun p t (ht : Target (.ofRoot document root) p t) hp =>
          builds_declaration hroot compile depth t (ht.holds hroot hp) pending
        have hcalled := fun p t ht hp =>
          Read.Builds.keeps fun s => (hdeclare p t ht hp s).mono fun _ _ h => h.1
        have hbuilds := builds_content (fun p t ht hp s =>
          (hdeclare p t ht hp s).mono fun _ _ h => h.2) hcalled depth hc s
        refine (hbuilds.and_keeps (keeps_content hcalled depth hc)).mono fun o s' h => ?_
        cases o with
        | none => exact h.2
        | some content => exact ⟨h.2.1, h.1 content rfl, h.2.2⟩
      rw [declaration_succ]
      exact Read.Builds.declared (L := dialect document root) hc hcontent s

/-! ## The start -/

/-- The positions are those of declarations. -/
def AreDeclared (indices : List Nat) (s : Collected G) : Prop :=
  ∀ index ∈ indices, ∃ name, s.nameAt? index = some name

theorem stays_areDeclared : Stays (AreDeclared : List Nat → Collected G → Prop) := by
  intro indices s s' hprecedes h index hindex
  obtain ⟨name, hname⟩ := h index hindex
  exact ⟨name, hprecedes.names hname⟩

theorem builds_flatten {α : Type} {f : α → Read G (List Nat)} {as : List α}
    (h : ∀ a ∈ as, ∀ s, Read.Builds I s (f a) AreDeclared) (s : Collected G) :
    Read.Builds I s (do
      let found ← Read.forEach f as
      pure found.flatten) AreDeclared := by
  refine .bind (.forEach stays_areDeclared h s) fun found s' _ hfound => .pure ?_
  intro index hindex
  obtain ⟨indices, hindices, hindex⟩ := List.mem_flatten.mp hindex
  exact hfound indices hindices index hindex

section

variable (hroot : document.Holds root) (compile : Compiler G)

include hroot

theorem builds_index (depth : Nat) (hc : document.Holds c) (s : Collected G) :
    Read.Builds (Built document (dialect document root) compile []) s (do
      let (index, _) ← declaration (.ofRoot document root) compile depth c
      pure [index]) AreDeclared := by
  refine .bind (builds_declaration hroot compile depth c hc [] s) fun result s' _ h => .pure ?_
  intro index hindex
  obtain rfl := List.mem_singleton.mp hindex
  exact ⟨result.2, h.2⟩

/-- Reading what the start offers builds on what has been built. -/
theorem builds_startDeclarations :
    ∀ (depth : Nat) (c : Cursor), document.Holds c → ∀ s,
      Read.Builds (Built document (dialect document root) compile []) s
        (startDeclarations (.ofRoot document root) compile depth c) AreDeclared
  | 0, _, _, _ => .tooDeep
  | depth + 1, c, hc, s => by
      have hnone : AreDeclared [] s := fun index hindex => absurd hindex List.not_mem_nil
      unfold startDeclarations
      split
      · exact builds_index hroot compile depth hc s
      · split
        · next href =>
          cases htarget :
              (c.element.attribute? "name").bind (definedElement? (.ofRoot document root)) with
          | none => exact .pure hnone
          | some t =>
              exact builds_index hroot compile depth
                ((target_of_bind href htarget).holds hroot hc) s
        · split
          · refine builds_flatten (fun p hp => ?_) s
            exact builds_startDeclarations depth p (holds_of_mem_parts hc hp)
          · exact .pure hnone

/-- Reading a grammar from its roots builds what its model consists of. -/
theorem builds_roots {depth : Nat} {roots : Read G (List Nat)}
    (h : roots? (.ofRoot document root) compile depth = some roots) (s : Collected G) :
    Read.Builds (Built document (dialect document root) compile []) s roots AreDeclared := by
  unfold roots? at h
  split at h
  · obtain ⟨start, hstart, rfl⟩ := Option.map_eq_some_iff.mp h
    have hholds : document.Holds start :=
      holds_of_mem_parts hroot (List.mem_of_find?_eq_some hstart)
    refine builds_flatten (fun p hp => ?_) s
    exact builds_startDeclarations hroot compile depth p (holds_of_mem_parts hholds hp)
  · split at h
    · obtain rfl := Option.some.inj h
      exact builds_index hroot compile depth hroot s
    · cases h

end

end

end VideoCatalog.Grammar.Pattern
