import Mathlib.Data.List.Count
import VideoCatalog.Proofs.Grammar.Assignment

/-!
# The violations of an element decide whether its children are in the language

The language of a content is said as a grammar says it. Of an ordered content it consists of the
blocks of `Content.Blocks`. Of an unordered one it consists of the lists whose children can be given
particles of their names so that every particle gets as many children as it allows
(`Content.IsSharing`).

A content finds nothing wrong with the lists in its language, also when several particles bear one
name (`admits_of_inLanguage`). To go back, the particles must bear different names: what is missing
is counted by name, so nothing missing means that each particle has enough only if no other particle
has its name (`min_le_count`).

Sharing and blocks meet in `wordOf`, the word in which every particle has its children together:
whoever shares the children out has a rearrangement of it (`perm_wordOf`), and whoever never goes
back has that word itself (`eq_wordOf`).
-/

namespace VideoCatalog.Grammar

variable {δ : Type} {j : Nat} {particles : List (Particle δ)} {q : Particle δ} {name n : String}
  {names : List String} {a : List Nat}

namespace Content

/-! ## The language -/

/-- Each child is given a particle of its name. -/
def GivesNames (particles : List (Particle δ)) : List String → List Nat → Prop :=
  List.Forall₂ (fun name j => ∃ q, particles[j]? = some q ∧ q.name = name)

/-- Each child is given a particle of its name, and every particle gets as many children as it
allows. -/
structure IsSharing (particles : List (Particle δ)) (names : List String) (a : List Nat) :
    Prop where
  names : GivesNames particles names a
  bounds : ∀ j q, particles[j]? = some q → q.min ≤ a.count j ∧ ∀ m, q.max = some m → a.count j ≤ m

/-- The children are in the language of the content. -/
def InLanguage (c : Content δ) (names : List String) : Prop :=
  if c.ordered then Blocks c.particles names else ∃ a, IsSharing c.particles names a

/-- Every child is accepted. -/
def AcceptsAll (c : Content δ) (names : List String) : Prop :=
  List.Forall₂ (fun _ slot => ∃ target, slot = Slot.accepted target) names (c.place names)

/-! ## The word of a sharing -/

/-- The word in which the particle at `j` has `f j` children. -/
def wordOf : List (Particle δ) → (Nat → Nat) → List String
  | [], _ => []
  | q :: qs, f => List.replicate (f 0) q.name ++ wordOf qs (fun j => f (j + 1))

theorem wordOf_zero (particles : List (Particle δ)) : wordOf particles (fun _ => 0) = [] := by
  induction particles with
  | nil => rfl
  | cons q qs ih => exact ih

theorem blocks_wordOf {f : Nat → Nat}
    (h : ∀ j q, particles[j]? = some q → q.min ≤ f j ∧ ∀ m, q.max = some m → f j ≤ m) :
    Blocks particles (wordOf particles f) := by
  induction particles generalizing f with
  | nil => exact .nil
  | cons q qs ih =>
      obtain ⟨hmin, hmax⟩ := h 0 q rfl
      exact .cons hmin hmax (ih fun j q' hq' => h (j + 1) q' hq')

/-- One child more at a particle is one of its name more in the word. -/
theorem perm_wordOf_succ {f g : Nat → Nat} (hq : particles[j]? = some q) (hj : g j = f j + 1)
    (hother : ∀ i, i ≠ j → g i = f i) :
    (wordOf particles g).Perm (q.name :: wordOf particles f) := by
  induction particles generalizing j f g with
  | nil => cases hq
  | cons q' qs ih =>
      cases j with
      | zero =>
          obtain rfl := Option.some.inj hq
          have hrest : (fun i => g (i + 1)) = fun i => f (i + 1) :=
            funext fun i => hother (i + 1) (Nat.succ_ne_zero i)
          rw [wordOf, hj, hrest]
          exact .refl _
      | succ j =>
          have hrest := ih hq hj fun i hi => hother (i + 1) (by omega)
          rw [wordOf, wordOf, hother 0 (Nat.zero_ne_add_one j)]
          exact (hrest.append_left _).trans List.perm_middle

/-- It comes first if the particles in front have no children. -/
theorem wordOf_succ {f g : Nat → Nat} (hq : particles[j]? = some q) (hj : g j = f j + 1)
    (hother : ∀ i, i ≠ j → g i = f i) (hbefore : ∀ i, i < j → f i = 0) :
    wordOf particles g = q.name :: wordOf particles f := by
  induction particles generalizing j f g with
  | nil => cases hq
  | cons q' qs ih =>
      cases j with
      | zero =>
          obtain rfl := Option.some.inj hq
          have hrest : (fun i => g (i + 1)) = fun i => f (i + 1) :=
            funext fun i => hother (i + 1) (Nat.succ_ne_zero i)
          rw [wordOf, hj, hrest]
          rfl
      | succ j =>
          have hnone := hbefore 0 (Nat.zero_lt_succ j)
          have hrest := ih hq hj (fun i hi => hother (i + 1) (by omega))
            (fun i hi => hbefore (i + 1) (by omega))
          rw [wordOf, wordOf, hother 0 (Nat.zero_ne_add_one j), hnone, hrest]
          rfl

theorem perm_wordOf (h : GivesNames particles names a) :
    names.Perm (wordOf particles (fun j => a.count j)) := by
  induction h with
  | nil =>
      have hnone : wordOf particles (fun j => List.count j []) = [] := wordOf_zero particles
      rw [hnone]
  | @cons name j names a hgiven _ ih =>
      obtain ⟨q, hq, rfl⟩ := hgiven
      have hnext := perm_wordOf_succ (f := fun i => a.count i) (g := fun i => (j :: a).count i) hq
        List.count_cons_self fun i hi => List.count_cons_of_ne (Ne.symm hi)
      exact (ih.cons q.name).trans hnext.symm

theorem eq_wordOf (h : GivesNames particles names a) (hsorted : a.Pairwise (· ≤ ·)) :
    names = wordOf particles (fun j => a.count j) := by
  induction h with
  | nil => exact (wordOf_zero particles).symm
  | @cons name j names a hgiven _ ih =>
      obtain ⟨q, hq, rfl⟩ := hgiven
      obtain ⟨hlater, hsorted'⟩ := List.pairwise_cons.mp hsorted
      have hbefore : ∀ i, i < j → a.count i = 0 := fun i hi =>
        List.count_eq_zero_of_not_mem fun hmem => absurd (hlater i hmem) (Nat.not_le.mpr hi)
      have hnext := wordOf_succ (f := fun i => a.count i) (g := fun i => (j :: a).count i) hq
        List.count_cons_self (fun i hi => List.count_cons_of_ne (Ne.symm hi)) hbefore
      rw [hnext, ← ih hsorted']

/-! ## Lists in the language -/

/-- The two readings of an unordered content agree: what can be shared out is blocks, rearranged. -/
theorem admits_of_inLanguage {c : Content δ} (h : c.InLanguage names) : c.Admits names := by
  unfold InLanguage at h
  by_cases hordered : c.ordered = true
  · rw [if_pos hordered] at h
    refine ⟨names, h, ?_⟩
    rw [if_pos hordered]
  · rw [if_neg hordered] at h
    obtain ⟨a, ha⟩ := h
    refine ⟨_, blocks_wordOf ha.bounds, ?_⟩
    rw [if_neg hordered]
    exact perm_wordOf ha.names

theorem length_place (c : Content δ) (names : List String) :
    (c.place names).length = names.length := by
  rw [place, List.length_zipWith, ← (names_of_assign c names).length_eq, Nat.min_self]

theorem acceptsAll_iff (c : Content δ) (names : List String) :
    c.AcceptsAll names ↔ ∀ slot ∈ c.place names, ∃ target, slot = .accepted target := by
  constructor
  · intro h
    unfold AcceptsAll at h
    generalize c.place names = slots at h
    induction h with
    | nil => exact fun _ hslot => absurd hslot List.not_mem_nil
    | cons hslot _ ih => exact List.forall_mem_cons.mpr ⟨hslot, ih⟩
  · intro h
    refine List.forall₂_iff_zip.mpr ⟨(c.length_place names).symm, fun hentry => ?_⟩
    exact h _ (List.of_mem_zip hentry).2

/-- Nothing is missing exactly if of each declared name there are as many children as the particles
of the name ask for together. -/
theorem missing_eq_nil_iff (c : Content δ) (names : List String) :
    c.missing names = [] ↔ ∀ q ∈ c.particles, c.required q.name ≤ names.count q.name := by
  rw [missing_eq_flatMap, List.flatMap_eq_nil_iff]
  constructor
  · intro h q hq
    have hdeclared : q.name ∈ (c.particles.map Particle.name).eraseDups :=
      List.mem_eraseDups.mpr (List.mem_map_of_mem hq)
    have hnone := (List.replicate_eq_nil_iff q.name).mp (h q.name hdeclared)
    exact Nat.sub_eq_zero_iff_le.mp hnone
  · intro h n hn
    obtain ⟨q, hq, rfl⟩ := List.mem_map.mp (List.mem_eraseDups.mp hn)
    rw [shortfall, Nat.sub_eq_zero_of_le (h q hq), List.replicate_zero]

/-- Nothing is wrong with a list in the language. -/
theorem acceptsAll_of_inLanguage {c : Content δ} (h : c.InLanguage names) :
    c.AcceptsAll names ∧ c.missing names = [] := by
  have hadmits := admits_of_inLanguage h
  refine ⟨(c.acceptsAll_iff names).mpr (forall_place_accepted hadmits), ?_⟩
  refine (c.missing_eq_nil_iff names).mpr fun q _ => ?_
  exact Nat.sub_eq_zero_iff_le.mp (shortfall_eq_zero hadmits q.name)

/-! ## Lists with which nothing is wrong -/

/-- A child that is accepted is kept. -/
theorem isSome_of_slot (c : Content δ) {kept : Option Nat} {target : δ}
    (h : c.slot name kept = .accepted target) : kept.isSome = true := by
  cases kept with
  | some j => rfl
  | none =>
      have hstrayed : c.strayed name = .accepted target := h
      unfold strayed at hstrayed
      split at hstrayed
      · cases hstrayed
      · cases hstrayed

/-- If every child is accepted, the placement gives each one a particle. -/
theorem exists_assign_eq {c : Content δ} (h : c.AcceptsAll names) :
    ∃ a : List Nat, c.assign names = a.map some := by
  have hnames := names_of_assign c names
  unfold AcceptsAll place at h
  generalize c.assign names = kept at h hnames
  induction hnames with
  | nil => exact ⟨[], rfl⟩
  | @cons name o names kept _ _ ih =>
      obtain ⟨⟨target, hslot⟩, hrest⟩ := List.forall₂_cons.mp h
      obtain ⟨j, rfl⟩ := Option.isSome_iff_exists.mp (c.isSome_of_slot hslot)
      obtain ⟨a, rfl⟩ := ih hrest
      exact ⟨j :: a, rfl⟩

theorem givesNames_of_map_some (h : KeepsNames particles names (a.map some)) :
    GivesNames particles names a :=
  (List.forall₂_map_right_iff.mp h).imp fun _ j hkept => hkept j rfl

theorem count_map_some (a : List Nat) (j : Nat) : (a.map some).count (some j) = a.count j :=
  List.count_map_of_injective a some (Option.some_injective Nat) j

theorem min_le_required (c : Content δ) (hq : q ∈ c.particles) : q.min ≤ c.required q.name := by
  unfold required
  generalize c.particles = particles at hq
  induction particles with
  | nil => exact absurd hq List.not_mem_nil
  | cons q' qs ih =>
      rw [List.filter_cons]
      rcases List.mem_cons.mp hq with rfl | hmem
      · rw [if_pos (beq_self_eq_true q.name), List.foldr_cons]
        exact Nat.le_add_right _ _
      · have hrest := ih hmem
        split
        · exact Nat.le_trans hrest (Nat.le_add_left _ _)
        · exact hrest

/-- If no other particle has its name, a particle gets all the children of that name. -/
theorem count_le_count (hdistinct : (particles.map Particle.name).Nodup)
    (h : GivesNames particles names a) (hq : particles[j]? = some q) :
    names.count q.name ≤ a.count j := by
  induction h with
  | nil => exact Nat.le_refl 0
  | @cons name i names a hgiven _ ih =>
      obtain ⟨q', hq', rfl⟩ := hgiven
      by_cases hname : q'.name = q.name
      · have hi : i < (particles.map Particle.name).length := by
          rw [List.length_map]
          exact (List.getElem?_eq_some_iff.mp hq').1
        have hsame : (particles.map Particle.name)[i]? = (particles.map Particle.name)[j]? := by
          rw [List.getElem?_map, List.getElem?_map, hq, hq', Option.map_some, Option.map_some,
            hname]
        obtain rfl := (List.getElem?_inj hi hdistinct).mp hsame
        rw [hname, List.count_cons_self, List.count_cons_self]
        exact Nat.succ_le_succ ih
      · rw [List.count_cons_of_ne hname]
        exact Nat.le_trans ih List.count_le_count_cons

theorem min_le_count {c : Content δ} (hdistinct : (c.particles.map Particle.name).Nodup)
    (h : GivesNames c.particles names a) (hmissing : c.missing names = [])
    (hq : c.particles[j]? = some q) : q.min ≤ a.count j := by
  have hmem := List.mem_of_getElem? hq
  calc
    q.min ≤ c.required q.name := c.min_le_required hmem
    _ ≤ names.count q.name := (c.missing_eq_nil_iff names).mp hmissing q hmem
    _ ≤ a.count j := count_le_count hdistinct h hq

/-- If nothing is wrong and no two particles share a name, the list is in the language. -/
theorem inLanguage_of_acceptsAll {c : Content δ}
    (hdistinct : (c.particles.map Particle.name).Nodup) (haccepts : c.AcceptsAll names)
    (hmissing : c.missing names = []) : c.InLanguage names := by
  obtain ⟨a, ha⟩ := exists_assign_eq haccepts
  have hgives : GivesNames c.particles names a :=
    givesNames_of_map_some (ha ▸ names_of_assign c names)
  have hsharing : IsAssignment c.particles names (a.map some) → IsSharing c.particles names a := by
    intro hassigned
    refine ⟨hgives, fun j q hq => ⟨min_le_count hdistinct hgives hmissing hq, fun m hmax => ?_⟩⟩
    rw [← count_map_some]
    exact hassigned.room j q m hq hmax
  unfold InLanguage
  unfold assign at ha
  by_cases hordered : c.ordered = true
  · rw [if_pos hordered] at ha ⊢
    obtain ⟨hassigned, hascending⟩ := walk_iff.mp (walk_align c.particles names)
    rw [ha] at hassigned hascending
    have hsorted : a.Pairwise (· ≤ ·) := by
      rwa [Ascending, List.reduceOption, List.filterMap_map, Function.id_comp,
        List.filterMap_some] at hascending
    rw [eq_wordOf hgives hsorted]
    exact blocks_wordOf (hsharing hassigned).bounds
  · rw [if_neg hordered] at ha ⊢
    have hassigned := fills_iff.mp (fills_fillFrom c.particles _ names)
    exact ⟨a, hsharing (ha ▸ hassigned)⟩

end Content

/-! ## The listing of one element -/

/-- An element has no violation exactly if all of its children are accepted and none is missing. -/
theorem violations_eq_nil_iff (c : DeclaredContent) (parent : String) (names : List String) :
    c.violations parent names = [] ↔ c.AcceptsAll names ∧ c.missing names = [] := by
  rw [DeclaredContent.violations, List.append_eq_nil_iff, List.map_eq_nil_iff,
    childViolations_eq_filterMap, List.filterMap_eq_nil_iff]
  refine and_congr_left fun _ => ?_
  constructor
  · intro h
    refine List.forall₂_iff_zip.mpr ⟨(c.length_place names).symm, fun {name slot} hentry => ?_⟩
    have hnone := h (name, slot) hentry
    cases slot with
    | accepted target => exact ⟨target, rfl⟩
    | misplaced target => cases hnone
    | unexpected => cases hnone
  · rintro h ⟨name, slot⟩ hentry
    obtain ⟨target, rfl⟩ := (List.forall₂_iff_zip.mp h).2 hentry
    rfl

/-- **The listing decides the language**: the children of a list in the language of a content are
all accepted and none is missing; if no two particles share a name, only such lists have that; and
it is what an empty list of violations says. -/
theorem listing_decides_language (c : DeclaredContent) (names : List String) :
    (c.InLanguage names → c.AcceptsAll names ∧ c.missing names = []) ∧
    ((c.particles.map Particle.name).Nodup →
      c.AcceptsAll names → c.missing names = [] → c.InLanguage names) ∧
    ∀ parent, c.violations parent names = [] ↔ c.AcceptsAll names ∧ c.missing names = [] := by
  refine ⟨Content.acceptsAll_of_inLanguage, ?_, fun parent => violations_eq_nil_iff c parent names⟩
  intro hdistinct haccepts hmissing
  exact Content.inLanguage_of_acceptsAll hdistinct haccepts hmissing

namespace Twins

/-- Two particles share a name. -/
def shared : DeclaredContent where
  ordered := true
  particles := [⟨1, "a", 1, some 2⟩, ⟨2, "b", 1, some 1⟩, ⟨3, "a", 1, some 1⟩]

/-- The particles have different names, and their children come in any order. -/
def apart : DeclaredContent where
  ordered := false
  particles := [⟨1, "a", 1, some 2⟩, ⟨2, "b", 1, some 1⟩]

theorem inLanguage_shared : shared.InLanguage ["a", "a", "b", "a"] := by
  have hlast : Content.Blocks [(⟨3, "a", 1, some 1⟩ : Particle Nat)] (["a"] ++ []) :=
    .cons (k := 1) (by decide) (by decide) .nil
  exact .cons (k := 2) (by decide) (by decide) (.cons (k := 1) (by decide) (by decide) hlast)

/-- Nothing is wrong with a list in the language of the one content, and a list with which nothing
is wrong is in the language of the other; a list with something wrong is not. -/
theorem listing_decides_language_twins :
    (shared.InLanguage ["a", "a", "b", "a"] ∧ shared.AcceptsAll ["a", "a", "b", "a"] ∧
      shared.missing ["a", "a", "b", "a"] = []) ∧
    (apart.AcceptsAll ["a", "b", "a"] ∧ apart.missing ["a", "b", "a"] = [] ∧
      apart.InLanguage ["a", "b", "a"]) ∧
    ¬ apart.InLanguage ["b", "b"] := by
  obtain ⟨hspares, -, -⟩ := listing_decides_language shared ["a", "a", "b", "a"]
  obtain ⟨-, hdecides, hviolations⟩ := listing_decides_language apart ["a", "b", "a"]
  obtain ⟨haccepts, hmissing⟩ := (hviolations "pair").mp rfl
  obtain ⟨hrefuted, -, hlisted⟩ := listing_decides_language apart ["b", "b"]
  refine ⟨⟨inLanguage_shared, hspares inLanguage_shared⟩,
    ⟨haccepts, hmissing, hdecides (by decide) haccepts hmissing⟩, fun hin => ?_⟩
  exact absurd ((hlisted "pair").mpr (hrefuted hin)) (by decide)

end Twins

/-- Where two particles share a name, nothing wrong does not say as much: here the last one gets no
child, and the first one gets two. -/
example :
    DeclaredContent.violations
        { ordered := true
          particles := [⟨1, "a", 1, some 2⟩, ⟨2, "b", 1, some 1⟩, ⟨3, "a", 1, some 1⟩] }
        "pair" ["a", "a", "b"] = [] := by
  rfl

end VideoCatalog.Grammar
