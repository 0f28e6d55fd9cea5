import Mathlib.Data.List.Forall2
import Mathlib.Data.List.GetD
import Mathlib.Order.MinMax
import VideoCatalog.Grammar.Content

/-!
# The table of gains is exact

Ordered content is placed by following a table. What the table stands for is said here without it:
a *walk* goes through the children from a state, being at particle `p` with `k` of its occurrences
used, and drops each child, keeps it where it is, or keeps it by moving on to a later particle
(`Content.Walk`). The gain of a state is the greatest number of children that a walk from there
keeps:

* no walk keeps more (`Walk.kept_le_gain`), by induction on the walk;
* following the table is a walk (`walk_follow`) and keeps that many (`kept_follow`), by induction on
  the children: a child is dropped only where that loses nothing.

Both rest on what one row says in terms of the row behind it, `gain_rowBefore`. Hence `align` keeps
every child as soon as some walk does (`forall_align_isSome`).
-/

namespace VideoCatalog.Grammar

variable {δ : Type} {total p k j n next target : Nat} {particles : List (Particle δ)}
  {q : Particle δ} {name : String} {names : List String} {a : List (Option Nat)}

namespace Particle

/-- Whether a particle has room for one more child than `k`. -/
def HasRoom (q : Particle δ) (k : Nat) : Prop :=
  ∀ m, q.max = some m → k < m

theorem admits_iff : q.admits name = true ↔ q.name = name ∧ q.HasRoom 0 := by
  unfold admits HasRoom
  cases q.max with
  | none => simp
  | some m => simp [Nat.pos_iff_ne_zero]

theorem name_of_stay? (h : q.stay? total k name = some next) : q.name = name := by
  unfold stay? at h
  by_cases hname : q.name = name
  · exact hname
  · rw [if_pos hname] at h
    cases h

theorem le_cap_of_stay? (h : q.stay? total k name = some next) : next ≤ q.cap total := by
  unfold stay? at h
  rw [if_neg (not_not_intro (name_of_stay? h))] at h
  cases hmax : q.max with
  | none =>
      simp only [hmax, Option.some.injEq] at h
      simp only [cap, hmax, ← h, Nat.le_refl]
  | some m =>
      simp only [hmax, Option.ite_none_right_eq_some, Option.some.injEq] at h
      exact h.2 ▸ h.1

theorem one_le_cap (h : q.HasRoom 0) (htotal : 0 < total) : 1 ≤ q.cap total := by
  unfold cap
  cases hmax : q.max with
  | none => exact Nat.le_refl 1
  | some m => exact Nat.le_min.mpr ⟨h m hmax, htotal⟩

end Particle

namespace Content

variable {row after : Row}

/-! ## Walks -/

/-- From the state at particle `p` with count `k`, the children can be kept by these particles, or
dropped. -/
inductive Walk (total : Nat) (particles : List (Particle δ)) :
    Nat → Nat → List String → List (Option Nat) → Prop
  | done {p k : Nat} : Walk total particles p k [] []
  | drop {p k : Nat} {name : String} {names : List String} {a : List (Option Nat)} :
      Walk total particles p k names a → Walk total particles p k (name :: names) (none :: a)
  | stay {p k next : Nat} {q : Particle δ} {name : String} {names : List String}
      {a : List (Option Nat)} :
      particles[p]? = some q → q.stay? total k name = some next →
      Walk total particles p next names a → Walk total particles p k (name :: names) (some p :: a)
  | move {p k j : Nat} {q : Particle δ} {name : String} {names : List String}
      {a : List (Option Nat)} :
      p < j → particles[j]? = some q → q.admits name = true →
      Walk total particles j 1 names a → Walk total particles p k (name :: names) (some j :: a)

/-- How many children are kept. -/
def kept (a : List (Option Nat)) : Nat :=
  a.countP Option.isSome

@[simp] theorem kept_nil : kept [] = 0 := rfl

@[simp] theorem kept_none (a : List (Option Nat)) : kept (none :: a) = kept a :=
  List.countP_cons_of_neg (by decide)

@[simp] theorem kept_some (p : Nat) (a : List (Option Nat)) : kept (some p :: a) = 1 + kept a := by
  rw [Nat.add_comm]
  exact List.countP_cons_of_pos rfl

theorem kept_map_none (names : List String) : kept (names.map (fun _ => none)) = 0 := by
  induction names with
  | nil => rfl
  | cons name names ih => rw [List.map_cons, kept_none, ih]

theorem walk_map_none (total p k : Nat) (particles : List (Particle δ)) (names : List String) :
    Walk total particles p k names (names.map (fun _ => none)) := by
  induction names with
  | nil => exact .done
  | cons name names ih => exact .drop ih

theorem Walk.length_eq (h : Walk total particles p k names a) : a.length = names.length := by
  induction h with
  | done => rfl
  | drop _ ih => rw [List.length_cons, List.length_cons, ih]
  | stay _ _ _ ih => rw [List.length_cons, List.length_cons, ih]
  | move _ _ _ _ ih => rw [List.length_cons, List.length_cons, ih]

/-- Without particles nothing is kept. -/
theorem Walk.kept_eq_zero (h : Walk total ([] : List (Particle δ)) p k names a) : kept a = 0 := by
  induction h with
  | done => rfl
  | drop _ ih => rw [kept_none, ih]
  | stay hq _ _ _ => cases hq
  | move _ hq _ _ _ => cases hq

/-- A child is kept by a particle of its name. -/
theorem Walk.names_of_kept (h : Walk total particles p k names a) :
    List.Forall₂ (fun name kept => ∀ j, kept = some j →
      ∃ q, particles[j]? = some q ∧ q.name = name) names a := by
  induction h with
  | done => exact .nil
  | drop _ ih => exact .cons (fun _ h => by cases h) ih
  | stay hq hstay _ ih =>
      refine .cons (fun j hj => ?_) ih
      obtain rfl := Option.some.inj hj
      exact ⟨_, hq, Particle.name_of_stay? hstay⟩
  | move _ hq hadmits _ ih =>
      refine .cons (fun j hj => ?_) ih
      obtain rfl := Option.some.inj hj
      exact ⟨_, hq, (Particle.admits_iff.mp hadmits).1⟩

/-! ## One row of the table -/

/-- A row has a list for each particle, with an entry for each count. -/
def IsRow (total : Nat) (particles : List (Particle δ)) (row : Row) : Prop :=
  List.Forall₂ (fun p gains => gains.length = p.cap total + 1) particles row

theorem isRow_lastRow (total : Nat) (particles : List (Particle δ)) :
    IsRow total particles (lastRow total particles) := by
  induction particles with
  | nil => exact .nil
  | cons q qs ih => exact .cons List.length_replicate ih

@[simp] theorem gain_cons_zero (gains : List Nat) (row : Row) (k : Nat) :
    gain (gains :: row) 0 k = gains.getD k 0 := rfl

@[simp] theorem gain_cons_succ (gains : List Nat) (row : Row) (p k : Nat) :
    gain (gains :: row) (p + 1) k = gain row p k := rfl

theorem rowBefore_cons (total : Nat) (name : String) (q : Particle δ) (qs : List (Particle δ))
    (gains : List Nat) (rest : Row) :
    rowBefore total name (q :: qs) (gains :: rest) =
      ((List.range (q.cap total + 1)).map (fun k =>
          max (gains.getD k 0)
            (max (stayGain total q gains name k) (rowBefore total name qs rest).2)) ::
        (rowBefore total name qs rest).1,
      max (if q.admits name then 1 + gains.getD 1 0 else 0) (rowBefore total name qs rest).2) :=
  rfl

theorem isRow_rowBefore (h : IsRow total particles after) :
    IsRow total particles (rowBefore total name particles after).1 := by
  induction h with
  | nil => exact .nil
  | cons _ _ ih => exact .cons (by rw [List.length_map, List.length_range]) ih

/-- The greatest gain of moving on to one of the particles is that of some particle. -/
theorem rowBefore_snd_cases (name : String) (h : IsRow total particles after) :
    (rowBefore total name particles after).2 = 0 ∨
      ∃ j q, particles[j]? = some q ∧ q.admits name = true ∧
        (rowBefore total name particles after).2 = 1 + gain after j 1 := by
  induction h with
  | nil => exact .inl rfl
  | @cons q gains qs rest _ _ ih =>
      rw [rowBefore_cons]
      have hlater : (rowBefore total name qs rest).2 = 0 ∨
          ∃ j q', (q :: qs)[j]? = some q' ∧ q'.admits name = true ∧
            (rowBefore total name qs rest).2 = 1 + gain (gains :: rest) j 1 := by
        refine ih.imp_right ?_
        rintro ⟨j, q', hq', hadmits, hgain⟩
        exact ⟨j + 1, q', hq', hadmits, hgain⟩
      by_cases hadmits : q.admits name = true
      · rw [if_pos hadmits]
        rcases max_choice (1 + gains.getD 1 0) (rowBefore total name qs rest).2 with hmax | hmax
        · exact .inr ⟨0, q, rfl, hadmits, hmax⟩
        · simp only [hmax]
          exact hlater
      · rw [if_neg hadmits, Nat.zero_max]
        exact hlater

/-- No particle that admits the child gains more. -/
theorem le_rowBefore_snd (h : IsRow total particles after) (hq : particles[j]? = some q)
    (hadmits : q.admits name = true) :
    1 + gain after j 1 ≤ (rowBefore total name particles after).2 := by
  induction h generalizing j with
  | nil => cases hq
  | @cons q' gains qs rest _ _ ih =>
      rw [rowBefore_cons]
      cases j with
      | zero =>
          obtain rfl := Option.some.inj hq
          rw [if_pos hadmits]
          exact Nat.le_max_left _ _
      | succ j => exact Nat.le_trans (ih hq) (Nat.le_max_right _ _)

/-- The gain of a state in terms of the row behind the child: the child is dropped, or kept where it
is due, or kept by moving on. -/
theorem gain_rowBefore (name : String) (h : IsRow total particles after)
    (hq : particles[p]? = some q) (hk : k ≤ q.cap total) :
    gain (rowBefore total name particles after).1 p k =
      max (gain after p k)
        (max (stayGain total q (after.getD p []) name k)
          (rowBefore total name (particles.drop (p + 1)) (after.drop (p + 1))).2) := by
  induction h generalizing p with
  | nil => cases hq
  | @cons q' gains qs rest _ _ ih =>
      rw [rowBefore_cons]
      cases p with
      | zero =>
          obtain rfl := Option.some.inj hq
          have hin : k < (List.range (q'.cap total + 1)).length := by
            rw [List.length_range]
            exact Nat.lt_succ_of_le hk
          rw [gain_cons_zero, List.getD_eq_getElem _ _ (by rw [List.length_map]; exact hin),
            List.getElem_map, List.getElem_range]
          rfl
      | succ p => exact ih hq

theorem IsRow.drop (h : IsRow total particles after) (i : Nat) :
    IsRow total (particles.drop i) (after.drop i) :=
  List.forall₂_drop i h

theorem gain_drop (row : Row) (i j k : Nat) : gain (row.drop i) j k = gain row (i + j) k := by
  simp only [gain, List.getD_eq_getElem?_getD, List.getElem?_drop]

/-- What a state can gain at most: no way of going on from it promises more. -/
theorem le_gain_of_drop (name : String) (h : IsRow total particles after)
    (hq : particles[p]? = some q) (hk : k ≤ q.cap total) :
    gain after p k ≤ gain (rowBefore total name particles after).1 p k := by
  rw [gain_rowBefore name h hq hk]
  exact Nat.le_max_left _ _

theorem le_gain_of_stay (h : IsRow total particles after) (hq : particles[p]? = some q)
    (hk : k ≤ q.cap total) (hstay : q.stay? total k name = some next) :
    1 + gain after p next ≤ gain (rowBefore total name particles after).1 p k := by
  rw [gain_rowBefore name h hq hk]
  refine Nat.le_trans (Nat.le_trans ?_ (Nat.le_max_left _ _)) (Nat.le_max_right _ _)
  rw [stayGain, hstay]
  exact Nat.le_refl _

theorem le_gain_of_move (h : IsRow total particles after) (hq : particles[p]? = some q)
    (hk : k ≤ q.cap total) {q' : Particle δ} (hj : p < j) (hq' : particles[j]? = some q')
    (hadmits : q'.admits name = true) :
    1 + gain after j 1 ≤ gain (rowBefore total name particles after).1 p k := by
  rw [gain_rowBefore name h hq hk]
  refine Nat.le_trans (Nat.le_trans ?_ (Nat.le_max_right _ _)) (Nat.le_max_right _ _)
  obtain ⟨i, rfl⟩ := Nat.exists_eq_add_of_lt hj
  have hdropped : (particles.drop (p + 1))[i]? = some q' := by
    rw [List.getElem?_drop]
    simpa only [Nat.add_right_comm] using hq'
  have hle := le_rowBefore_snd (h.drop (p + 1)) hdropped hadmits
  rwa [gain_drop, Nat.add_right_comm] at hle

/-- What a state gains is what one of the ways of going on from it promises. -/
theorem gain_cases (name : String) (h : IsRow total particles after)
    (hq : particles[p]? = some q) (hk : k ≤ q.cap total) :
    gain (rowBefore total name particles after).1 p k = gain after p k ∨
      (∃ next, q.stay? total k name = some next ∧
        1 + gain after p next = gain (rowBefore total name particles after).1 p k) ∨
      ∃ j q', p < j ∧ particles[j]? = some q' ∧ q'.admits name = true ∧
        1 + gain after j 1 = gain (rowBefore total name particles after).1 p k := by
  by_cases heq : gain (rowBefore total name particles after).1 p k = gain after p k
  · exact .inl heq
  right
  have hle := le_gain_of_drop name h hq hk
  have hgain := gain_rowBefore name h hq hk
  -- the child is not dropped, so the gain is positive and comes from keeping the child
  rcases max_choice (gain after p k) (max (stayGain total q (after.getD p []) name k)
    (rowBefore total name (particles.drop (p + 1)) (after.drop (p + 1))).2) with hmax | hmax
  · exact absurd (hgain.trans hmax) heq
  rw [hmax] at hgain
  rcases max_choice (stayGain total q (after.getD p []) name k)
    (rowBefore total name (particles.drop (p + 1)) (after.drop (p + 1))).2 with hstays | hmoves
  · left
    rw [hstays] at hgain
    cases hstay : q.stay? total k name with
    | some next =>
        simp only [stayGain, hstay] at hgain
        exact ⟨next, rfl, hgain.symm⟩
    | none =>
        simp only [stayGain, hstay] at hgain
        omega
  · right
    rw [hmoves] at hgain
    rcases rowBefore_snd_cases name (h.drop (p + 1)) with hzero | hmove
    · omega
    · obtain ⟨i, q', hq', hadmits, hvalue⟩ := hmove
      rw [List.getElem?_drop] at hq'
      rw [gain_drop] at hvalue
      exact ⟨p + 1 + i, q', by omega, hq', hadmits, (hgain.trans hvalue).symm⟩

/-! ## The whole table -/

/-- The row in front of the children. -/
def firstRow (total : Nat) (particles : List (Particle δ)) : List String → Row
  | [] => lastRow total particles
  | name :: names => (rowBefore total name particles (firstRow total particles names)).1

theorem rows_eq (total : Nat) (particles : List (Particle δ)) (names : List String) :
    ∃ later, rows total particles names = firstRow total particles names :: later := by
  induction names with
  | nil => exact ⟨[], rfl⟩
  | cons name names ih =>
      obtain ⟨later, hlater⟩ := ih
      refine ⟨rows total particles names, ?_⟩
      rw [rows, hlater, firstRow]
      rfl

theorem rows_cons (total : Nat) (particles : List (Particle δ)) (name : String)
    (names : List String) :
    rows total particles (name :: names) =
      firstRow total particles (name :: names) :: rows total particles names := by
  obtain ⟨later, hlater⟩ := rows_eq total particles names
  rw [rows, hlater, firstRow]
  rfl

theorem isRow_firstRow (total : Nat) (particles : List (Particle δ)) (names : List String) :
    IsRow total particles (firstRow total particles names) := by
  induction names with
  | nil => exact isRow_lastRow total particles
  | cons name names ih => exact isRow_rowBefore ih

theorem gain_lastRow (total : Nat) (particles : List (Particle δ)) (p k : Nat) :
    gain (lastRow total particles) p k = 0 := by
  induction particles generalizing p with
  | nil => rfl
  | cons q qs ih =>
      cases p with
      | zero =>
          rw [lastRow, List.map_cons, gain_cons_zero, List.getD_eq_getElem?_getD,
            List.getElem?_replicate]
          split <;> rfl
      | succ p => exact ih p

/-- No walk keeps more children than its first state gains. -/
theorem Walk.kept_le_gain (h : Walk total particles p k names a) (hq : particles[p]? = some q)
    (hk : k ≤ q.cap total) (htotal : names.length ≤ total) :
    kept a ≤ gain (firstRow total particles names) p k := by
  induction h generalizing q with
  | done => exact Nat.zero_le _
  | @drop p k name names a _ ih =>
      have hbelow := ih hq hk (Nat.le_of_succ_le htotal)
      rw [kept_none]
      exact Nat.le_trans hbelow (le_gain_of_drop _ (isRow_firstRow total particles names) hq hk)
  | @stay p k next q' name names a hq' hstay _ ih =>
      obtain rfl := Option.some.inj (hq.symm.trans hq')
      have hbelow := ih hq' (Particle.le_cap_of_stay? hstay) (Nat.le_of_succ_le htotal)
      rw [kept_some]
      exact Nat.le_trans (Nat.add_le_add_left hbelow 1)
        (le_gain_of_stay (isRow_firstRow total particles names) hq hk hstay)
  | @move p k j q' name names a hj hq' hadmits _ ih =>
      have hroom := (Particle.admits_iff.mp hadmits).2
      have hbelow := ih hq' (Particle.one_le_cap hroom (Nat.lt_of_lt_of_le (Nat.succ_pos _) htotal))
        (Nat.le_of_succ_le htotal)
      rw [kept_some]
      exact Nat.le_trans (Nat.add_le_add_left hbelow 1)
        (le_gain_of_move (isRow_firstRow total particles names) hq hk hj hq' hadmits)

/-! ## Following the table -/

theorem stayAt?_eq_some_iff :
    stayAt? total particles after name p k target = some next ↔
      ∃ q, particles[p]? = some q ∧ q.stay? total k name = some next ∧
        1 + gain after p next = target := by
  unfold stayAt?
  cases particles[p]? with
  | none => simp
  | some q => simp [Option.filter_eq_some_iff, and_comm]

theorem moveOn?_eq_some (h : moveOn? particles after name p target = some j) :
    ∃ q, p < j ∧ particles[j]? = some q ∧ q.admits name = true ∧ 1 + gain after j 1 = target := by
  have htest := List.find?_some h
  cases hq : particles[j]? with
  | none => simp [hq] at htest
  | some q =>
      simp only [hq, Option.map_some, Option.getD_some, Bool.and_eq_true, decide_eq_true_eq,
        beq_iff_eq] at htest
      exact ⟨q, htest.1.1, rfl, htest.1.2, htest.2⟩

theorem not_of_moveOn?_eq_none (h : moveOn? particles after name p target = none) (hj : p < j)
    (hq : particles[j]? = some q) (hadmits : q.admits name = true) :
    1 + gain after j 1 ≠ target := by
  intro htarget
  have hin : j ∈ List.range particles.length :=
    List.mem_range.mpr (List.getElem?_eq_some_iff.mp hq).1
  have htest := List.find?_eq_none.mp h j hin
  simp [hj, hq, hadmits, htarget] at htest

/-- Following the table from a state is a walk, and it keeps as many children as the state gains. -/
theorem walk_follow (hq : particles[p]? = some q) (hk : k ≤ q.cap total)
    (htotal : names.length ≤ total) :
    Walk total particles p k names
        (follow total particles p k names (rows total particles names)) ∧
      kept (follow total particles p k names (rows total particles names)) =
        gain (firstRow total particles names) p k := by
  induction names generalizing p k q with
  | nil =>
      rw [firstRow, gain_lastRow]
      exact ⟨.done, rfl⟩
  | cons name names ih =>
      obtain ⟨later, hlater⟩ := rows_eq total particles names
      have hrow := isRow_firstRow total particles names
      have hbehind := Nat.le_of_succ_le htotal
      rw [rows_cons, hlater, follow, ← hlater]
      by_cases hzero : gain (firstRow total particles (name :: names)) p k = 0
      · simp only [if_pos hzero]
        rw [kept_none, kept_map_none, hzero]
        exact ⟨.drop (walk_map_none total p k particles names), rfl⟩
      · simp only [if_neg hzero]
        cases hstay : stayAt? total particles (firstRow total particles names) name p k
            (gain (firstRow total particles (name :: names)) p k) with
        | some next =>
            obtain ⟨q', hq', hnext, htarget⟩ := stayAt?_eq_some_iff.mp hstay
            obtain ⟨hwalk, hkept⟩ := ih hq' (Particle.le_cap_of_stay? hnext) hbehind
            refine ⟨.stay hq' hnext hwalk, ?_⟩
            rw [kept_some, hkept, htarget]
        | none =>
            cases hmove : moveOn? particles (firstRow total particles names) name p
                (gain (firstRow total particles (name :: names)) p k) with
            | some j =>
                obtain ⟨q', hj, hq', hadmits, htarget⟩ := moveOn?_eq_some hmove
                have hroom := (Particle.admits_iff.mp hadmits).2
                have hone := Particle.one_le_cap hroom (Nat.lt_of_lt_of_le (Nat.succ_pos _) htotal)
                obtain ⟨hwalk, hkept⟩ := ih hq' hone hbehind
                refine ⟨.move hj hq' hadmits hwalk, ?_⟩
                rw [kept_some, hkept, htarget]
            | none =>
                obtain ⟨hwalk, hkept⟩ := ih hq hk hbehind
                refine ⟨.drop hwalk, ?_⟩
                rw [kept_none, hkept]
                -- neither way of keeping the child gains as much, so dropping it loses nothing
                rcases gain_cases name hrow hq hk with hdrop | hstays | hmoves
                · exact hdrop.symm
                · obtain ⟨next, hnext, htarget⟩ := hstays
                  have hsome := stayAt?_eq_some_iff.mpr ⟨q, hq, hnext, htarget⟩
                  exact absurd (hstay.symm.trans hsome) (by simp)
                · obtain ⟨j, q', hj, hq', hadmits, htarget⟩ := hmoves
                  exact absurd htarget (not_of_moveOn?_eq_none hmove hj hq' hadmits)

/-! ## Placing -/

theorem walk_align (particles : List (Particle δ)) (names : List String) :
    Walk names.length particles 0 0 names (align particles names) := by
  unfold align
  cases particles with
  | nil => exact walk_map_none _ 0 0 [] names
  | cons q qs => exact (walk_follow rfl (Nat.zero_le _) (Nat.le_refl _)).1

/-- No walk through the children keeps more of them than `align` does. -/
theorem kept_le_kept_align (h : Walk names.length particles 0 0 names a) :
    kept a ≤ kept (align particles names) := by
  unfold align
  cases particles with
  | nil =>
      rw [h.kept_eq_zero]
      exact Nat.zero_le _
  | cons q qs =>
      have hfirst : (q :: qs)[0]? = some q := rfl
      have hbest := h.kept_le_gain hfirst (Nat.zero_le _) (Nat.le_refl _)
      have htotal : names.length ≤ names.length := Nat.le_refl _
      have hkept := (walk_follow hfirst (Nat.zero_le _) htotal).2
      simp only [List.isEmpty_cons, Bool.false_eq_true, if_false]
      rw [hkept]
      exact hbest

theorem forall_isSome_of_length_le_kept (h : a.length ≤ kept a) : ∀ o ∈ a, o.isSome = true := by
  have hcount : a.countP Option.isSome = a.length := Nat.le_antisymm List.countP_le_length h
  exact List.countP_eq_length.mp hcount

/-- If some walk keeps every child, `align` does. -/
theorem forall_align_isSome (h : Walk names.length particles 0 0 names a)
    (hall : ∀ o ∈ a, o.isSome = true) : ∀ o ∈ align particles names, o.isSome = true := by
  refine forall_isSome_of_length_le_kept ?_
  have hkept : kept a = a.length := List.countP_eq_length.mpr hall
  rw [(walk_align particles names).length_eq, ← h.length_eq, ← hkept]
  exact kept_le_kept_align h

end Content

end VideoCatalog.Grammar
