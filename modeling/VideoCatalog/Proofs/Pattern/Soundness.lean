import VideoCatalog.Proofs.Grammar.Origin
import VideoCatalog.Proofs.Pattern.Matching
import VideoCatalog.Proofs.Pattern.Particles

/-!
# What a RelaxNG grammar allows, its model does not call a violation

An element-only element pattern is read as a content that admits every child sequence that the
pattern matches, provided that the reader understood all that the pattern refers to (`Clear`):

* the element patterns in its content are each given by one name. The reader has no particle for a
  name class and writes the empty name into it;
* the references in its content are to names that are defined once. Of several definitions of one
  name the reader takes the last and forgets the others.

The argument follows the reader: one pattern and its particle (`Stem.matches_block`), a list of
patterns and their particles (`blocks_of_inGroup`, `perm_blocks_of_inInterleave`), a whole content
(`admits_of_contentMatches`).
-/

namespace VideoCatalog.Grammar.Pattern

open Xml (Cursor Document Element)

/-! ## What the reader understands -/

/-- An element pattern is given by one name. -/
def HasName (c : Cursor) : Prop :=
  (c.element.attribute? "name").isSome = true ∨ ∃ p rest, parts c = p :: rest ∧ p.name = "name"

/-- The patterns in the content of an element pattern: those in place, those inside other patterns
and those that references stand for, but not those in the content of further elements. -/
inductive Within (source : Source) (c : Cursor) : Cursor → Prop
  | content {content : List Cursor} {p : Cursor} : HasContent c content → p ∈ content →
      Within source c p
  | inside {p q : Cursor} : Within source c p → p.name ≠ "element" → q ∈ parts p →
      Within source c q
  | defined {p d q : Cursor} {name : String} : Within source c p → p.name = "ref" →
      p.element.attribute? "name" = some name → d ∈ definitionsOf source name → q ∈ parts d →
      Within source c q

/-- Everything in the content of an element pattern is such that the reader understands it. -/
structure Clear (source : Source) (c : Cursor) : Prop where
  named : ∀ {p}, Within source c p → p.name = "element" → HasName p
  once : ∀ {p name}, Within source c p → p.name = "ref" →
    p.element.attribute? "name" = some name → ∃ d, definitionsOf source name = [d]

section

variable {document : Document} {source : Source} {root c p t : Cursor}
  {fits : Cursor → Element → Prop} {es : List Element} {q : Particle Nat}

/-- An element that has the name of an element pattern has the name that the reader enters. -/
theorem Named.name_eq {e : Element} (h : Named c e) (hname : HasName c) :
    e.name = patternName c := by
  cases h with
  | written hwritten hbears =>
      rw [patternName, hwritten]
      exact hbears.localName_eq.symm
  | @nameClass first rest hwritten hparts hclass =>
      have hfirst : first.name = "name" := by
        rcases hname with hsome | ⟨p, ps, hparts', hp⟩
        · rw [hwritten] at hsome
          cases hsome
        · obtain ⟨rfl, -⟩ := List.cons.inj (hparts.symm.trans hparts')
          exact hp
      have hfind : (parts c).find? (fun p => p.name == "name") = some first := by
        rw [hparts]
        exact List.find?_cons_of_pos (by simpa using hfirst)
      cases hclass with
      | name _ hbears =>
          rw [patternName, hwritten, hfind]
          exact hbears.localName_eq.symm
      | _ => simp_all

/-- The only definition of a name is the one that the reader finds. -/
theorem parts_of_definedElement? {d : Cursor} {name : String}
    (hdefined : definedElement? (.ofRoot document root) name = some t)
    (hone : definitionsOf (.ofRoot document root) name = [d]) :
    parts d = [t] ∧ t.name = "element" := by
  obtain ⟨d', hd', hwritten, hparts, ht⟩ := exists_definition hdefined
  have hmem : d' ∈ definitionsOf (.ofRoot document root) name := by
    refine List.mem_filter.mpr ⟨hd', ?_⟩
    simp [hwritten]
  rw [hone, List.mem_singleton] at hmem
  exact ⟨hmem ▸ hparts, ht⟩

/-! ## Particles -/

variable (hclear : Clear (.ofRoot document root) c) (hfits : ∀ p e, fits p e → Named p e)

include hclear hfits

/-- What stands for an element pattern matches one element, of the name that the reader enters. -/
theorem Target.matches_one (h : Target (.ofRoot document root) p t)
    (hwithin : Within (.ofRoot document root) c p)
    (hmatches : Matches (.ofRoot document root) fits p es) :
    ∃ e, es = [e] ∧ e.name = patternName t := by
  cases h with
  | element hname =>
      obtain ⟨e, rfl, hfit⟩ := hmatches.of_element hname
      exact ⟨e, rfl, (hfits p e hfit).name_eq (hclear.named hwithin hname)⟩
  | ref hname hwritten hdefined =>
      obtain ⟨d, hd⟩ := hclear.once hwithin hname hwritten
      obtain ⟨hparts, ht⟩ := parts_of_definedElement? hdefined hd
      have hinside : Within (.ofRoot document root) c t :=
        .defined hwithin hname hwritten (hd ▸ List.mem_singleton_self d)
          (hparts ▸ List.mem_singleton_self t)
      have hgroup := hmatches.of_ref hname hwritten hd
      rw [hparts] at hgroup
      obtain ⟨e, rfl, hfit⟩ := hgroup.of_single.of_element ht
      exact ⟨e, rfl, (hfits t e hfit).name_eq (hclear.named hinside ht)⟩

/-- What is matched one by one has one name throughout. -/
theorem Target.names_of_pieces (h : Target (.ofRoot document root) p t)
    (hwithin : Within (.ofRoot document root) c p) {pieces : List (List Element)}
    (hpieces : ∀ piece ∈ pieces, InGroup (.ofRoot document root) fits [p] piece) :
    pieces.flatten.map Element.name = List.replicate pieces.length (patternName t) := by
  induction pieces with
  | nil => rfl
  | cons piece pieces ih =>
      obtain ⟨hpiece, hrest⟩ := List.forall_mem_cons.mp hpieces
      obtain ⟨e, rfl, hname⟩ := h.matches_one hclear hfits hwithin hpiece.of_single
      rw [List.flatten_cons, List.singleton_append, List.map_cons, hname, ih hrest,
        List.length_cons, List.replicate_succ]

/-- What a pattern matches fits into the particle that stems from it. -/
theorem Stem.matches_block (h : Stem (.ofRoot document root) p q)
    (hwithin : Within (.ofRoot document root) c p)
    (hmatches : Matches (.ofRoot document root) fits p es) :
    ∃ k, es.map Element.name = List.replicate k q.name ∧ q.min ≤ k ∧
      ∀ m, q.max = some m → k ≤ m := by
  cases h with
  | once htarget hname htimes =>
      -- an element pattern outside any operator matches one element
      obtain ⟨e, rfl, he⟩ := htarget.matches_one hclear hfits hwithin hmatches
      obtain ⟨hmin, hmax⟩ := Prod.mk.inj htimes
      refine ⟨1, ?_, Nat.le_of_eq hmin, fun m hm => ?_⟩
      · rw [List.map_singleton, he, hname]
        rfl
      · obtain rfl := Option.some.inj (hmax.symm.trans hm)
        exact Nat.le_refl 1
  | repeated hoperator hparts htarget hname htimes =>
      -- an operator matches as many pieces as the particle allows, each of them one element
      obtain ⟨pieces, rfl, hpieces, hleast, hgreatest⟩ := hmatches.of_operator hoperator
      obtain ⟨hmin, hmax⟩ := Prod.mk.inj htimes
      have hne : p.name ≠ "element" := by
        intro heq
        rw [heq] at hoperator
        cases hoperator
      have hinside := Within.inside hwithin hne (hparts ▸ List.mem_singleton_self _)
      rw [hparts] at hpieces
      refine ⟨pieces.length, ?_, hmin ▸ hleast, fun m hm => hgreatest m (hmax ▸ hm)⟩
      rw [hname]
      exact htarget.names_of_pieces hclear hfits hinside hpieces

/-- What a group matches is a word of the particles that stem from it. -/
theorem blocks_of_inGroup {items : List Cursor} {qs : List (Particle Nat)}
    (hstems : List.Forall₂ (Stem (.ofRoot document root)) items qs)
    (hwithin : ∀ p ∈ items, Within (.ofRoot document root) c p)
    (h : InGroup (.ofRoot document root) fits items es) :
    Content.Blocks qs (es.map Element.name) := by
  induction hstems generalizing es with
  | nil =>
      cases h
      exact .nil
  | cons hstem _ ih =>
      obtain ⟨hfirst, hothers⟩ := List.forall_mem_cons.mp hwithin
      cases h with
      | cons hmatches hrest =>
          obtain ⟨k, hnames, hmin, hmax⟩ := hstem.matches_block hclear hfits hfirst hmatches
          rw [List.map_append, hnames]
          exact .cons hmin hmax (ih hothers hrest)

/-- What an interleaving matches is such a word in another order. -/
theorem perm_blocks_of_inInterleave {items : List Cursor} {qs : List (Particle Nat)}
    (hstems : List.Forall₂ (Stem (.ofRoot document root)) items qs)
    (hwithin : ∀ p ∈ items, Within (.ofRoot document root) c p)
    (h : InInterleave (.ofRoot document root) fits (items.map (fun p => [p])) es) :
    ∃ word, Content.Blocks qs word ∧ (es.map Element.name).Perm word := by
  induction hstems generalizing es with
  | nil =>
      cases h
      exact ⟨[], .nil, .refl _⟩
  | cons hstem _ ih =>
      obtain ⟨hfirst, hothers⟩ := List.forall_mem_cons.mp hwithin
      cases h with
      | cons hmatches hrest hmixed =>
          obtain ⟨k, hnames, hmin, hmax⟩ :=
            hstem.matches_block hclear hfits hfirst hmatches.of_single
          obtain ⟨word, hword, hperm⟩ := ih hothers hrest
          refine ⟨_, .cons hmin hmax hword, (hmixed.perm.map Element.name).trans ?_⟩
          rw [List.map_append, hnames]
          exact hperm.append_left _

/-! ## Contents -/

omit hclear hfits in
/-- Where the reader takes the content of an element pattern for element-only, it has not taken the
name class for a part of it. -/
theorem contentParts_eq {content : List Cursor} {declared : DeclaredContent}
    (htells : Says source c declared) (hcontent : HasContent c content)
    (hgroup : InGroup source fits content es) : contentParts c = content := by
  cases hcontent with
  | written _ => exact List.filter_eq_self.mpr hgroup.forall_name_ne
  | @nameClass first rest _ hparts hclass =>
      have hrest := List.filter_eq_self.mpr hgroup.forall_name_ne
      by_cases hchoice : first.name = "choice"
      · -- a choice of names would be an item, and no particle stems from it
        have hitems : (shape c).2 = first :: content := by
          have hkept : contentParts c = first :: content := by
            rw [contentParts, hparts, List.filter_cons_of_pos (by simp [hchoice]), hrest]
          rw [shape, hkept]
          cases content with
          | nil => simp [hchoice]
          | cons _ _ => rfl
        obtain ⟨q, hq⟩ : ∃ q, Stem source first q := by
          have hstems := htells.2
          rw [hitems] at hstems
          obtain ⟨q, _, hstem, -, -⟩ := List.forall₂_cons_left_iff.mp hstems
          exact ⟨q, hstem⟩
        cases hq with
        | once htarget _ _ => cases htarget <;> simp_all
        | repeated hoperator _ _ _ _ => simp_all [isOperator]
      · rw [contentParts, hparts, List.filter_cons_of_neg, hrest]
        simpa [isNameClass, hchoice, or_assoc, imp_iff_not_or] using hclass

/-- A content that says what an element pattern says admits what the element pattern matches. -/
theorem admits_of_contentMatches {declared : DeclaredContent}
    (htells : Says (.ofRoot document root) c declared)
    (h : ContentMatches (.ofRoot document root) fits c es) :
    declared.Admits (es.map Element.name) := by
  obtain ⟨content, hcontent, hgroup⟩ := h
  have hparts := contentParts_eq htells hcontent hgroup
  obtain ⟨hordered, hstems⟩ := htells
  have hwithin : ∀ p ∈ content, Within (.ofRoot document root) c p :=
    fun p hp => .content hcontent hp
  -- the shape looks through an interleaving or a group that is the whole content
  unfold shape at hordered hstems
  rw [hparts] at hordered hstems
  split at hstems
  · next single =>
    have hsingle : Within (.ofRoot document root) c single :=
      hwithin single (List.mem_singleton_self single)
    dsimp only at hordered hstems
    by_cases hinterleave : single.name = "interleave"
    · rw [if_pos hinterleave] at hordered hstems
      have hne : single.name ≠ "element" := by rw [hinterleave]; decide
      obtain ⟨word, hword, hperm⟩ := perm_blocks_of_inInterleave hclear hfits hstems
        (fun p hp => .inside hsingle hne hp) (hgroup.of_single.of_interleave hinterleave)
      refine ⟨word, hword, ?_⟩
      rw [hordered]
      exact hperm
    · rw [if_neg hinterleave] at hordered hstems
      by_cases hname : single.name = "group"
      · rw [if_pos hname] at hordered hstems
        have hne : single.name ≠ "element" := by rw [hname]; decide
        refine ⟨_, blocks_of_inGroup hclear hfits hstems (fun p hp => .inside hsingle hne hp)
          (hgroup.of_single.of_group hname), ?_⟩
        rw [hordered]
        rfl
      · rw [if_neg hname] at hordered hstems
        refine ⟨_, blocks_of_inGroup hclear hfits hstems hwithin hgroup, ?_⟩
        rw [hordered]
        rfl
  · refine ⟨_, blocks_of_inGroup hclear hfits hstems hwithin hgroup, ?_⟩
    split at hordered
    · simp_all
    · rw [hordered]
      rfl

end

end VideoCatalog.Grammar.Pattern
