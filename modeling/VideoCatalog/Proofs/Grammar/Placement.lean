import Mathlib.Data.ENat.Basic
import VideoCatalog.Proofs.Grammar.Account
import VideoCatalog.Proofs.Grammar.Alignment

/-!
# A content finds nothing wrong with its own language

The words of a row of particles are those that fall into consecutive blocks, one for each particle
in its order, each of as many children of its name as it allows (`Content.Blocks`). The language of
an ordered content consists of these words, that of an unordered content of these words in any order
(`Content.Admits`).

A child sequence in the language has no violations (`violations_eq_nil`):

* in an ordered content the blocks are a walk that keeps every child (`exists_walk_of_blocks`), so
  the table finds one;
* in an unordered one every child takes the first particle of its name with room left. As long as
  the children still to come are no more than the room that is left for them (`Content.spare`),
  there is such a particle, and taking it leaves enough for the rest;
* a block has no fewer children than its particle asks for, so none is missing.

Several particles may bear one name; the first that has room need not be the one in whose block the
child stands.
-/

namespace VideoCatalog.Grammar

variable {δ : Type} {total p k m i : Nat} {particles ps before : List (Particle δ)} {q : Particle δ}
  {name n : String} {names word : List String} {used : List Nat}

namespace Content

/-! ## The language of a content -/

/-- The names fall into blocks, one for each particle in its order, each as long as the particle
allows. -/
inductive Blocks : List (Particle δ) → List String → Prop
  | nil : Blocks [] []
  | cons {q : Particle δ} {ps : List (Particle δ)} {k : Nat} {names : List String} :
      q.min ≤ k → (∀ m, q.max = some m → k ≤ m) → Blocks ps names →
      Blocks (q :: ps) (List.replicate k q.name ++ names)

/-- A content allows these children: their names are blocks, in any order if the content is not
ordered. -/
def Admits (c : Content δ) (names : List String) : Prop :=
  ∃ word, Blocks c.particles word ∧ if c.ordered then names = word else names.Perm word

/-! ## Ordered content -/

/-- Children of one name are kept at a particle of that name as long as it has room. -/
theorem exists_walk_of_replicate (hq : particles[p]? = some q)
    (hrest : ∀ k, ∃ a, Walk total particles p k names a ∧ ∀ o ∈ a, o.isSome = true)
    (hroom : ∀ max, q.max = some max → k + m ≤ max) (htotal : k + m ≤ total) :
    ∃ a, Walk total particles p k (List.replicate m q.name ++ names) a ∧
      ∀ o ∈ a, o.isSome = true := by
  induction m generalizing k with
  | zero => exact hrest k
  | succ m ih =>
      have hstay : ∃ next, q.stay? total k q.name = some next ∧
          (∀ max, q.max = some max → next + m ≤ max) ∧ next + m ≤ total := by
        unfold Particle.stay? Particle.cap
        cases hmax : q.max with
        | none => exact ⟨1, by simp, fun max h => (by cases h), by omega⟩
        | some max =>
            have hle := hroom max hmax
            have hlt : k < Nat.min max total := Nat.lt_min.mpr ⟨by omega, by omega⟩
            refine ⟨k + 1, by simp [hlt], fun max' h => ?_, by omega⟩
            obtain rfl := Option.some.inj h
            omega
      obtain ⟨next, hnext, hroom', htotal'⟩ := hstay
      obtain ⟨a, hwalk, hall⟩ := ih hroom' htotal'
      exact ⟨some p :: a, .stay hq hnext hwalk, List.forall_mem_cons.mpr ⟨rfl, hall⟩⟩

/-- Blocks of the particles from some position on are a walk that keeps every child, from every
state in front of that position, and from the first state of all if that is where they begin. -/
theorem exists_walk_of_blocks (h : Blocks ps names) (hsplit : particles = before ++ ps)
    (hstate : p < before.length ∨ before = [] ∧ p = 0 ∧ k = 0) (htotal : names.length ≤ total) :
    ∃ a, Walk total particles p k names a ∧ ∀ o ∈ a, o.isSome = true := by
  induction h generalizing before p k with
  | nil => exact ⟨[], .done, fun _ ho => absurd ho List.not_mem_nil⟩
  | @cons q ps c names hmin hmax hblocks ih =>
      have hq : particles[before.length]? = some q := by
        rw [hsplit, List.getElem?_append_right (Nat.le_refl _), Nat.sub_self]
        rfl
      have hsplit' : particles = (before ++ [q]) ++ ps := by
        rw [hsplit, List.append_assoc]
        rfl
      rw [List.length_append, List.length_replicate] at htotal
      -- the children behind the block, from any state at its particle or in front of it
      have hbehind : ∀ p' k', p' ≤ before.length →
          ∃ a, Walk total particles p' k' names a ∧ ∀ o ∈ a, o.isSome = true := by
        intro p' k' hp'
        refine ih hsplit' (.inl ?_) (by omega)
        rw [List.length_append]
        exact Nat.lt_succ_of_le hp'
      cases c with
      | zero =>
          refine hbehind p k ?_
          rcases hstate with hlt | ⟨-, rfl, -⟩
          · exact Nat.le_of_lt hlt
          · exact Nat.zero_le _
      | succ m =>
          rcases hstate with hlt | ⟨rfl, rfl, rfl⟩
          · obtain ⟨a, hwalk, hall⟩ := exists_walk_of_replicate (k := 1) (m := m) hq
              (fun k' => hbehind _ k' (Nat.le_refl _))
              (fun max h => by have := hmax max h; omega) (by omega)
            have hadmits : q.admits q.name = true :=
              Particle.admits_iff.mpr ⟨rfl, fun max h => by have := hmax max h; omega⟩
            exact ⟨some before.length :: a, .move hlt hq hadmits hwalk,
              List.forall_mem_cons.mpr ⟨rfl, hall⟩⟩
          · exact exists_walk_of_replicate hq (fun k' => hbehind _ k' (Nat.le_refl _))
              (fun max h => by have := hmax max h; omega) (by omega)

/-- In an ordered content every child of a word is kept. -/
theorem forall_align_isSome_of_blocks (h : Blocks particles names) :
    ∀ o ∈ align particles names, o.isSome = true := by
  have hsplit : particles = [] ++ particles := rfl
  obtain ⟨a, hwalk, hall⟩ :=
    exists_walk_of_blocks h hsplit (.inr ⟨rfl, rfl, rfl⟩) (Nat.le_refl _)
  exact forall_align_isSome hwalk hall

end Content

/-! ## Unordered content -/

namespace Particle

/-- How many more children than `u` a particle can take. -/
def spare (q : Particle δ) (u : Nat) : ℕ∞ :=
  match q.max with
  | none => ⊤
  | some m => (m - u : Nat)

/-- Whether a particle of this name has room left, as it is asked in placing a child. -/
def isFree (name : String) (q : Particle δ) (u : Nat) : Bool :=
  q.name = name && (q.max.map (fun m => decide (u < m))).getD true

theorem name_of_isFree {u : Nat} (h : q.isFree name u = true) : q.name = name :=
  of_decide_eq_true (Bool.and_eq_true_iff.mp h).1

theorem spare_eq_zero {u : Nat} (hname : q.name = name) (h : q.isFree name u = false) :
    q.spare u = 0 := by
  unfold isFree at h
  unfold spare
  cases hmax : q.max with
  | none => simp [hname, hmax] at h
  | some m =>
      have hfull : m ≤ u := by simpa [hname, hmax] using h
      simp only [Nat.sub_eq_zero_of_le hfull, Nat.cast_zero]

theorem spare_succ {u : Nat} (h : q.isFree name u = true) : q.spare (u + 1) + 1 = q.spare u := by
  unfold isFree at h
  unfold spare
  cases hmax : q.max with
  | none => rfl
  | some m =>
      have hroom : u < m := by
        rw [hmax] at h
        simpa using (Bool.and_eq_true_iff.mp h).2
      have hsub : m - (u + 1) + 1 = m - u := by omega
      exact congrArg Nat.cast hsub

end Particle

namespace Content

/-- How many more children of this name the particles can take. -/
def spare (name : String) : List (Particle δ) → List Nat → ℕ∞
  | q :: qs, u :: us => (if q.name = name then q.spare u else 0) + spare name qs us
  | _, _ => 0

theorem room?_cons (name : String) (q : Particle δ) (qs : List (Particle δ)) (u : Nat)
    (us : List Nat) :
    room? name (q :: qs) (u :: us) =
      if q.isFree name u = true then some 0 else (room? name qs us).map (· + 1) :=
  rfl

/-- Where no particle of the name has room, nothing is spare. -/
theorem spare_eq_zero_of_room? (h : room? name particles used = none) :
    spare name particles used = 0 := by
  induction particles generalizing used with
  | nil => rfl
  | cons q qs ih =>
      cases used with
      | nil => rfl
      | cons u us =>
          rw [room?_cons] at h
          by_cases hfree : q.isFree name u = true
          · rw [if_pos hfree] at h
            cases h
          · rw [if_neg hfree, Option.map_eq_none_iff] at h
            rw [spare, ih h, add_zero]
            by_cases hname : q.name = name
            · rw [if_pos hname]
              exact Particle.spare_eq_zero hname (Bool.not_eq_true _ ▸ hfree)
            · exact if_neg hname

/-- The particle that takes a child has its name and room left. -/
theorem isFree_of_room? (h : room? name particles used = some i) :
    ∃ q u, particles[i]? = some q ∧ used[i]? = some u ∧ q.isFree name u = true := by
  induction particles generalizing used i with
  | nil => cases h
  | cons q qs ih =>
      cases used with
      | nil => cases h
      | cons u us =>
          rw [room?_cons] at h
          by_cases hfree : q.isFree name u = true
          · rw [if_pos hfree] at h
            obtain rfl := Option.some.inj h
            exact ⟨q, u, rfl, rfl, hfree⟩
          · rw [if_neg hfree] at h
            obtain ⟨j, hj, rfl⟩ := Option.map_eq_some_iff.mp h
            exact ih hj

/-- Taking a child leaves one place less for children of its name, and as many for all others. -/
theorem spare_modify {u : Nat} (hq : particles[i]? = some q) (hu : used[i]? = some u)
    (hfree : q.isFree name u = true) (n : String) :
    spare n particles (used.modify i (· + 1)) + (if name = n then 1 else 0) =
      spare n particles used := by
  induction particles generalizing used i with
  | nil => cases hq
  | cons q' qs ih =>
      cases used with
      | nil => cases hu
      | cons u' us =>
          cases i with
          | zero =>
              obtain rfl := Option.some.inj hq
              obtain rfl := Option.some.inj hu
              rw [List.modify_zero_cons, spare, spare, Particle.name_of_isFree hfree]
              by_cases hn : name = n
              · rw [if_pos hn, if_pos hn, if_pos hn, add_right_comm, Particle.spare_succ hfree]
              · rw [if_neg hn, if_neg hn, if_neg hn, add_zero]
          | succ i =>
              rw [List.modify_succ_cons, spare, spare, add_assoc, ih hq hu]

/-- If there is room for all children that are still to come, every one of them is taken. -/
theorem forall_fillFrom_isSome
    (h : ∀ n, (names.count n : ℕ∞) ≤ spare n particles used) :
    ∀ o ∈ fillFrom particles used names, o.isSome = true := by
  induction names generalizing used with
  | nil => exact fun _ ho => absurd ho List.not_mem_nil
  | cons name names ih =>
      rw [fillFrom]
      cases hroom : room? name particles used with
      | none =>
          have hfirst := h name
          rw [spare_eq_zero_of_room? hroom, List.count_cons_self] at hfirst
          simp at hfirst
      | some i =>
          obtain ⟨q, u, hq, hu, hfree⟩ := isFree_of_room? hroom
          refine List.forall_mem_cons.mpr ⟨rfl, ih fun n => ?_⟩
          have hn := h n
          rw [← spare_modify hq hu hfree n] at hn
          by_cases heq : name = n
          · subst heq
            rw [List.count_cons_self, if_pos rfl, Nat.cast_add, Nat.cast_one] at hn
            exact (ENat.add_le_add_iff_right ENat.one_ne_top).mp hn
          · rwa [List.count_cons_of_ne heq, if_neg heq, add_zero] at hn

/-- The words of particles have no more children of a name than the particles can take. -/
theorem Blocks.count_le_spare (h : Blocks particles word) (n : String) :
    (word.count n : ℕ∞) ≤ spare n particles (particles.map (fun _ => 0)) := by
  induction h with
  | nil => exact le_refl _
  | @cons q ps k names hmin hmax _ ih =>
      rw [List.count_append, List.count_replicate, Nat.cast_add, List.map_cons, spare]
      refine add_le_add ?_ ih
      by_cases hname : q.name = n
      · rw [if_pos hname, if_pos (by simpa using hname), Particle.spare]
        cases hq : q.max with
        | none => exact le_top
        | some m => exact Nat.cast_le.mpr (hmax m hq)
      · rw [if_neg hname, if_neg (by simpa using hname), Nat.cast_zero]

/-- In an unordered content every child of a reordered word is taken. -/
theorem forall_fill_isSome_of_perm (h : Blocks particles word) (hperm : names.Perm word) :
    ∀ o ∈ fill particles names, o.isSome = true := by
  refine forall_fillFrom_isSome fun n => ?_
  rw [hperm.count_eq]
  exact h.count_le_spare n

/-- A child is taken by a particle of its name. -/
theorem names_of_fillFrom (particles : List (Particle δ)) (used : List Nat) (names : List String) :
    List.Forall₂ (fun name kept => ∀ j, kept = some j →
      ∃ q, particles[j]? = some q ∧ q.name = name) names (fillFrom particles used names) := by
  induction names generalizing used with
  | nil => exact .nil
  | cons name names ih =>
      rw [fillFrom]
      cases hroom : room? name particles used with
      | none => exact .cons (fun _ h => by cases h) (ih used)
      | some i =>
          refine .cons (fun j hj => ?_) (ih _)
          obtain rfl := Option.some.inj hj
          obtain ⟨q, u, hq, -, hfree⟩ := isFree_of_room? hroom
          exact ⟨q, hq, Particle.name_of_isFree hfree⟩

/-! ## Both -/

/-- A child that is kept is kept by a particle of its name. -/
theorem names_of_assign (c : Content δ) (names : List String) :
    List.Forall₂ (fun name kept => ∀ j, kept = some j →
      ∃ q, c.particles[j]? = some q ∧ q.name = name) names (c.assign names) := by
  unfold assign
  by_cases hordered : c.ordered = true
  · rw [if_pos hordered]
    exact (walk_align c.particles names).names_of_kept
  · rw [if_neg hordered]
    exact names_of_fillFrom c.particles _ names

/-- Every child of a sequence in the language is kept. -/
theorem forall_assign_isSome {c : Content δ} (h : c.Admits names) :
    ∀ o ∈ c.assign names, o.isSome = true := by
  obtain ⟨word, hblocks, hword⟩ := h
  unfold assign
  by_cases hordered : c.ordered = true
  · rw [if_pos hordered] at hword ⊢
    exact forall_align_isSome_of_blocks (hword ▸ hblocks)
  · rw [if_neg hordered] at hword ⊢
    exact forall_fill_isSome_of_perm hblocks hword

theorem forall_slot_accepted {c : Content δ} {a : List (Option Nat)}
    (hnames : List.Forall₂ (fun name kept => ∀ j, kept = some j →
      ∃ q, c.particles[j]? = some q ∧ q.name = name) names a)
    (hall : ∀ o ∈ a, o.isSome = true) :
    ∀ slot ∈ List.zipWith c.slot names a, ∃ target, slot = .accepted target := by
  induction hnames with
  | nil => exact fun _ hslot => absurd hslot List.not_mem_nil
  | @cons name kept names a hkept _ ih =>
      obtain ⟨hsome, hrest⟩ := List.forall_mem_cons.mp hall
      refine List.forall_mem_cons.mpr ⟨?_, ih hrest⟩
      obtain ⟨j, rfl⟩ := Option.isSome_iff_exists.mp hsome
      obtain ⟨q, hq, -⟩ := hkept j rfl
      exact ⟨q.target, by simp only [slot, Option.bind_some, hq]⟩

/-- Every child of a sequence in the language is accepted. -/
theorem forall_place_accepted {c : Content δ} (h : c.Admits names) :
    ∀ slot ∈ c.place names, ∃ target, slot = .accepted target :=
  forall_slot_accepted (names_of_assign c names) (forall_assign_isSome h)

/-- A block has as many children as its particle asks for. -/
theorem Blocks.required_le_count (h : Blocks particles word) (n : String) :
    (particles.filter (fun q => q.name == n)).foldr (fun q sum => q.min + sum) 0 ≤
      word.count n := by
  induction h with
  | nil => exact Nat.le_refl 0
  | @cons q ps k names hmin hmax _ ih =>
      rw [List.count_append, List.count_replicate, List.filter_cons]
      by_cases hname : (q.name == n) = true
      · rw [if_pos hname, if_pos hname, List.foldr_cons]
        exact Nat.add_le_add hmin ih
      · rw [if_neg hname, if_neg hname, Nat.zero_add]
        exact ih

/-- No child of a sequence in the language is missing. -/
theorem shortfall_eq_zero {c : Content δ} (h : c.Admits names) (n : String) :
    c.shortfall names n = 0 := by
  obtain ⟨word, hblocks, hword⟩ := h
  have hcount : names.count n = word.count n := by
    by_cases hordered : c.ordered = true
    · rw [if_pos hordered] at hword
      rw [hword]
    · rw [if_neg hordered] at hword
      exact hword.count_eq n
  rw [shortfall, required, hcount]
  exact Nat.sub_eq_zero_of_le (hblocks.required_le_count n)

end Content

/-- A child sequence in the language of a content has no violations. -/
theorem violations_eq_nil {c : DeclaredContent} (h : c.Admits names) (parent : String) :
    c.violations parent names = [] := by
  rw [violations_eq_account, DeclaredContent.account, List.append_eq_nil_iff]
  constructor
  · refine List.filterMap_eq_nil_iff.mpr ?_
    rintro ⟨name, slot⟩ hentry
    obtain ⟨target, rfl⟩ := Content.forall_place_accepted h slot (List.of_mem_zip hentry).2
    rfl
  · refine List.flatMap_eq_nil_iff.mpr fun n _ => ?_
    rw [Content.shortfall_eq_zero h, List.replicate_zero]

end VideoCatalog.Grammar
