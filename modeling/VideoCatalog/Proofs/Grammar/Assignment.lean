import Mathlib.Data.ENat.Lattice
import Mathlib.Data.List.Perm.Subperm
import Mathlib.Data.List.ReduceOption
import VideoCatalog.Proofs.Grammar.Placement

/-!
# Placing keeps as many children as can be kept

What a placement may do is said here without the table and without the search for room. In an
*assignment* a child that is kept is kept by a particle of its name, and no particle keeps more
children than it may (`Content.IsAssignment`); it is *ascending* if the particles that keep children
never go back along the children (`Content.Ascending`).

* The walks of the table are the ascending assignments (`walk_iff`): a state knows the particle that
  was reached and how much of it is used, which is all that an ascending assignment has to respect.
  As `align` is a walk that keeps most, it is an ascending assignment that keeps most.
* Unordered content takes the children one by one, each by a particle of its name that is not full
  (`Fills`), and those runs are the assignments (`fills_iff`). Of the children of one name no run
  keeps more than there are or than the particles of that name can take together
  (`Fills.count_keptNames_le`), and `fill` keeps the lesser of the two
  (`count_keptNames_fillFrom`).

Hence a child of an unknown name, and no other one, has no slot at all (`placement_is_largest`).
-/

namespace VideoCatalog.Grammar

variable {δ : Type} {total p k j m u : Nat} {particles : List (Particle δ)} {q : Particle δ}
  {name n : String} {names : List String} {a : List (Option Nat)} {used : List Nat}

namespace Content

/-! ## Assignments -/

/-- A child that is kept is kept by a particle of its name. -/
def KeepsNames (particles : List (Particle δ)) : List String → List (Option Nat) → Prop :=
  List.Forall₂ (fun name kept => ∀ j, kept = some j → ∃ q, particles[j]? = some q ∧ q.name = name)

/-- Children are kept by particles of their names, and no particle keeps more than it may. -/
structure IsAssignment (particles : List (Particle δ)) (names : List String)
    (a : List (Option Nat)) : Prop where
  names : KeepsNames particles names a
  room : ∀ j q m, particles[j]? = some q → q.max = some m → a.count (some j) ≤ m

/-- Along the children, the particles that keep them never go back. -/
def Ascending (a : List (Option Nat)) : Prop :=
  a.reduceOption.Pairwise (· ≤ ·)

theorem ascending_none : Ascending (none :: a) ↔ Ascending a := by
  rw [Ascending, List.reduceOption_cons_of_none, Ascending]

theorem ascending_some :
    Ascending (some j :: a) ↔ (∀ i, some i ∈ a → j ≤ i) ∧ Ascending a := by
  rw [Ascending, List.reduceOption_cons_of_some, List.pairwise_cons, Ascending]
  simp only [List.reduceOption_mem_iff]

theorem count_some_none : (none :: a).count (some j) = a.count (some j) :=
  List.count_cons_of_ne (by simp)

/-! ## Ordered content: walks are ascending assignments -/

theorem Walk.le_of_mem (h : Walk total particles p k names a) : ∀ i, some i ∈ a → p ≤ i := by
  induction h with
  | done => exact fun _ hi => absurd hi List.not_mem_nil
  | drop _ ih =>
      intro i hi
      rcases List.mem_cons.mp hi with hi | hi
      · cases hi
      · exact ih i hi
  | stay _ _ _ ih =>
      intro i hi
      rcases List.mem_cons.mp hi with hi | hi
      · exact Nat.le_of_eq (Option.some.inj hi).symm
      · exact ih i hi
  | move hj _ _ _ ih =>
      intro i hi
      rcases List.mem_cons.mp hi with hi | hi
      · exact Option.some.inj hi ▸ Nat.le_of_lt hj
      · exact Nat.le_trans (Nat.le_of_lt hj) (ih i hi)

theorem Walk.ascending (h : Walk total particles p k names a) : Ascending a := by
  induction h with
  | done => exact .nil
  | drop _ ih => exact ascending_none.mpr ih
  | stay _ _ hwalk ih => exact ascending_some.mpr ⟨hwalk.le_of_mem, ih⟩
  | move _ _ _ hwalk ih => exact ascending_some.mpr ⟨hwalk.le_of_mem, ih⟩

end Content

theorem Particle.eq_succ_of_stay? (hmax : q.max = some m)
    (h : q.stay? total k name = some j) : j = k + 1 ∧ k < m ∧ k < total := by
  unfold stay? cap at h
  rw [if_neg (not_not_intro (name_of_stay? h)), hmax] at h
  obtain ⟨hlt, hj⟩ := Option.ite_none_right_eq_some.mp h
  obtain ⟨hm, htotal⟩ := Nat.lt_min.mp hlt
  exact ⟨(Option.some.inj hj).symm, hm, htotal⟩

/-- A particle with room left takes one more child of its name. -/
theorem Particle.exists_stay? (hname : q.name = name) (hroom : q.HasRoom k) (htotal : k < total) :
    ∃ next, q.stay? total k name = some next ∧ (q.max = none → next = 1) := by
  unfold stay? cap
  rw [if_neg (not_not_intro hname)]
  cases hmax : q.max with
  | none => exact ⟨1, rfl, fun _ => rfl⟩
  | some m =>
      have hlt : k < Nat.min m total := Nat.lt_min.mpr ⟨hroom m hmax, htotal⟩
      exact ⟨k + 1, if_pos hlt, fun h => by cases h⟩

namespace Content

/-- A walk respects the room of every particle; the one where it begins has already taken `k`. -/
theorem Walk.count_add_le (h : Walk total particles p k names a) (hq : particles[j]? = some q)
    (hmax : q.max = some m) (hk : j = p → k ≤ m) :
    a.count (some j) + (if j = p then k else 0) ≤ m := by
  induction h with
  | done =>
      rw [List.count_nil, Nat.zero_add]
      split
      · next hj => exact hk hj
      · exact Nat.zero_le m
  | drop _ ih =>
      rw [count_some_none]
      exact ih hk
  | @stay p k next q' name names a hq' hstay _ ih =>
      by_cases hj : j = p
      · subst hj
        obtain rfl := Option.some.inj (hq.symm.trans hq')
        obtain ⟨rfl, hlt, -⟩ := Particle.eq_succ_of_stay? hmax hstay
        have hrest := ih (fun _ => hlt)
        rw [if_pos rfl] at hrest ⊢
        rw [List.count_cons_self]
        omega
      · have hrest := ih (fun hp => absurd hp hj)
        rw [if_neg hj] at hrest ⊢
        rwa [List.count_cons_of_ne (by simpa using Ne.symm hj)]
  | @move p k j' q' name names a hj' hq' hadmits hwalk ih =>
      by_cases hj : j = j'
      · subst hj
        obtain rfl := Option.some.inj (hq.symm.trans hq')
        have hrest := ih (fun _ => (Particle.admits_iff.mp hadmits).2 m hmax)
        rw [if_pos rfl] at hrest
        rw [if_neg (Nat.ne_of_gt hj'), List.count_cons_self]
        exact hrest
      · rw [List.count_cons_of_ne (by simpa using Ne.symm hj)]
        by_cases hp : j = p
        · -- the walk has left its first particle for good
          have hnone : a.count (some j) = 0 := List.count_eq_zero_of_not_mem fun hmem =>
            absurd (hwalk.le_of_mem j hmem) (by omega)
          rw [hnone, if_pos hp, Nat.zero_add]
          exact hk hp
        · have hrest := ih (fun h => absurd h hj)
          rw [if_neg hj] at hrest
          rwa [if_neg hp]

/-- From a state on, an ascending assignment that respects what is used there is a walk. -/
theorem walk_of_ascending (hnames : KeepsNames particles names a) (hascending : Ascending a)
    (hle : ∀ i, some i ∈ a → p ≤ i)
    (hroom : ∀ j q m, particles[j]? = some q → q.max = some m →
      a.count (some j) + (if j = p then k else 0) ≤ m)
    (htotal : k + names.length ≤ total) : Walk total particles p k names a := by
  induction hnames generalizing p k with
  | nil => exact .done
  | @cons name kept names a hkept _ ih =>
      rw [List.length_cons] at htotal
      cases kept with
      | none =>
          refine .drop (ih (ascending_none.mp hascending)
            (fun i hi => hle i (List.mem_cons_of_mem _ hi)) (fun j q m hq hmax => ?_) (by omega))
          have hcount := hroom j q m hq hmax
          rwa [count_some_none] at hcount
      | some i =>
          obtain ⟨q, hq, hname⟩ := hkept i rfl
          obtain ⟨hlater, hascending'⟩ := ascending_some.mp hascending
          have hother : ∀ j q' m, j ≠ i → particles[j]? = some q' → q'.max = some m →
              a.count (some j) ≤ m := by
            intro j q' m hj hq' hmax
            have hcount := hroom j q' m hq' hmax
            rw [List.count_cons_of_ne (by simpa using Ne.symm hj)] at hcount
            omega
          rcases Nat.eq_or_lt_of_le (hle i List.mem_cons_self) with rfl | hlt
          · have hfree : q.HasRoom k := by
              intro m hmax
              have hcount := hroom p q m hq hmax
              rw [if_pos rfl, List.count_cons_self] at hcount
              omega
            have hleft : k < total := by omega
            obtain ⟨next, hnext, hone⟩ := Particle.exists_stay? hname hfree hleft
            have hbound : next + names.length ≤ total := by
              cases hmax : q.max with
              | none =>
                  rw [hone hmax]
                  omega
              | some m =>
                  rw [(Particle.eq_succ_of_stay? hmax hnext).1]
                  omega
            refine .stay hq hnext (ih hascending' hlater (fun j q' m hq' hmax => ?_) hbound)
            by_cases hj : j = p
            · subst hj
              obtain rfl := Option.some.inj (hq.symm.trans hq')
              have hcount := hroom j q m hq hmax
              rw [if_pos rfl, List.count_cons_self] at hcount
              rw [if_pos rfl, (Particle.eq_succ_of_stay? hmax hnext).1]
              omega
            · rw [if_neg hj, Nat.add_zero]
              exact hother j q' m hj hq' hmax
          · have hfirst : ∀ m, q.max = some m → a.count (some i) + 1 ≤ m := by
              intro m hmax
              have hcount := hroom i q m hq hmax
              rwa [if_neg (Nat.ne_of_gt hlt), List.count_cons_self, Nat.add_zero] at hcount
            have hadmits : q.admits name = true :=
              Particle.admits_iff.mpr ⟨hname, fun m hmax => by have := hfirst m hmax; omega⟩
            refine .move hlt hq hadmits
              (ih hascending' hlater (fun j q' m hq' hmax => ?_) (by omega))
            by_cases hj : j = i
            · subst hj
              obtain rfl := Option.some.inj (hq.symm.trans hq')
              rw [if_pos rfl]
              exact hfirst m hmax
            · rw [if_neg hj, Nat.add_zero]
              exact hother j q' m hj hq' hmax

/-- The walks from the first state are the ascending assignments. -/
theorem walk_iff :
    Walk names.length particles 0 0 names a ↔ IsAssignment particles names a ∧ Ascending a := by
  constructor
  · intro h
    refine ⟨⟨h.names_of_kept, fun j q m hq hmax => ?_⟩, h.ascending⟩
    have hcount := h.count_add_le hq hmax (fun _ => Nat.zero_le m)
    exact Nat.le_of_add_right_le hcount
  · rintro ⟨hassigned, hascending⟩
    refine walk_of_ascending hassigned.names hascending (fun _ _ => Nat.zero_le _)
      (fun j q m hq hmax => ?_) (Nat.le_of_eq (Nat.zero_add _))
    rw [ite_self, Nat.add_zero]
    exact hassigned.room j q m hq hmax

/-! ## Unordered content: runs are assignments -/

/-- With so many children taken by each particle, the children can be taken one by one, or dropped.
-/
inductive Fills (particles : List (Particle δ)) :
    List Nat → List String → List (Option Nat) → Prop
  | done {used : List Nat} : Fills particles used [] []
  | drop {used : List Nat} {name : String} {names : List String} {a : List (Option Nat)} :
      Fills particles used names a → Fills particles used (name :: names) (none :: a)
  | take {used : List Nat} {j u : Nat} {q : Particle δ} {name : String} {names : List String}
      {a : List (Option Nat)} :
      particles[j]? = some q → used[j]? = some u → q.isFree name u = true →
      Fills particles (used.modify j (· + 1)) names a →
      Fills particles used (name :: names) (some j :: a)

theorem fills_fillFrom (particles : List (Particle δ)) (used : List Nat) (names : List String) :
    Fills particles used names (fillFrom particles used names) := by
  induction names generalizing used with
  | nil => exact .done
  | cons name names ih =>
      rw [fillFrom]
      cases hroom : room? name particles used with
      | none => exact .drop (ih used)
      | some i =>
          obtain ⟨q, u, hq, hu, hfree⟩ := isFree_of_room? hroom
          exact .take hq hu hfree (ih _)

theorem Fills.names_of_kept (h : Fills particles used names a) :
    KeepsNames particles names a := by
  induction h with
  | done => exact .nil
  | drop _ ih => exact .cons (fun _ h => by cases h) ih
  | take hq _ hfree _ ih =>
      refine .cons (fun j hj => ?_) ih
      obtain rfl := Option.some.inj hj
      exact ⟨_, hq, Particle.name_of_isFree hfree⟩

end Content

theorem Particle.isFree_iff : q.isFree name u = true ↔ q.name = name ∧ q.HasRoom u := by
  unfold isFree HasRoom
  cases q.max with
  | none => simp
  | some m => simp

namespace Content

/-- Of a particle that has taken `u` children a run takes no more than it may still take. -/
theorem Fills.count_add_le (h : Fills particles used names a) (hq : particles[j]? = some q)
    (hu : used[j]? = some u) (hmax : q.max = some m) (hle : u ≤ m) :
    a.count (some j) + u ≤ m := by
  induction h generalizing u with
  | done =>
      rw [List.count_nil, Nat.zero_add]
      exact hle
  | drop _ ih =>
      rw [count_some_none]
      exact ih hu hle
  | @take used i u' q' name names a hq' hu' hfree _ ih =>
      by_cases hi : i = j
      · subst hi
        obtain rfl := Option.some.inj (hq.symm.trans hq')
        obtain rfl := Option.some.inj (hu.symm.trans hu')
        have hroom := (Particle.isFree_iff.mp hfree).2 m hmax
        have hnext : (used.modify i (· + 1))[i]? = some (u + 1) := by
          rw [List.getElem?_modify_eq, hu]
          rfl
        have hrest := ih hnext hroom
        rw [List.count_cons_self]
        omega
      · have hsame : (used.modify i (· + 1))[j]? = some u := by
          rw [List.getElem?_modify_ne _ _ hi, hu]
        rw [List.count_cons_of_ne (by simpa using hi)]
        exact ih hsame hle

/-- An assignment that respects what is used is a run. -/
theorem fills_of_keepsNames (hnames : KeepsNames particles names a)
    (hlength : used.length = particles.length)
    (hroom : ∀ j q u m, particles[j]? = some q → used[j]? = some u → q.max = some m →
      a.count (some j) + u ≤ m) : Fills particles used names a := by
  induction hnames generalizing used with
  | nil => exact .done
  | @cons name kept names a hkept _ ih =>
      cases kept with
      | none =>
          refine .drop (ih hlength fun j q u m hq hu hmax => ?_)
          have hcount := hroom j q u m hq hu hmax
          rwa [count_some_none] at hcount
      | some i =>
          obtain ⟨q, hq, hname⟩ := hkept i rfl
          have hi : i < used.length := hlength ▸ (List.getElem?_eq_some_iff.mp hq).1
          have hu : used[i]? = some used[i] := List.getElem?_eq_getElem hi
          have hfree : q.isFree name used[i] = true := by
            refine Particle.isFree_iff.mpr ⟨hname, fun m hmax => ?_⟩
            have hcount := hroom i q _ m hq hu hmax
            rw [List.count_cons_self] at hcount
            omega
          refine .take hq hu hfree
            (ih ((List.length_modify _ _ _).trans hlength) fun j q' v m hq' hv hmax => ?_)
          by_cases hj : i = j
          · subst hj
            rw [List.getElem?_modify_eq, hu] at hv
            obtain rfl := Option.some.inj hv
            have hcount := hroom i q' _ m hq' hu hmax
            rw [List.count_cons_self] at hcount
            show a.count (some i) + (used[i] + 1) ≤ m
            omega
          · rw [List.getElem?_modify_ne _ _ hj] at hv
            have hcount := hroom j q' v m hq' hv hmax
            rwa [List.count_cons_of_ne (by simpa using hj)] at hcount

/-- The runs from empty particles are the assignments. -/
theorem fills_iff :
    Fills particles (particles.map (fun _ => 0)) names a ↔ IsAssignment particles names a := by
  have hunused : ∀ (j u : Nat), (particles.map (fun _ => 0))[j]? = some u → u = 0 := by
    intro j u hu
    rw [List.getElem?_map] at hu
    obtain ⟨q, -, hq⟩ := Option.map_eq_some_iff.mp hu
    exact hq.symm
  constructor
  · intro h
    refine ⟨h.names_of_kept, fun j q m hq hmax => ?_⟩
    have hu : (particles.map (fun _ => 0))[j]? = some 0 := by
      rw [List.getElem?_map, hq]
      rfl
    exact h.count_add_le hq hu hmax (Nat.zero_le m)
  · intro h
    refine fills_of_keepsNames h.names (List.length_map _) fun j q u m hq hu hmax => ?_
    rw [hunused j u hu, Nat.add_zero]
    exact h.room j q m hq hmax

/-! ## The children that are kept, by name -/

/-- The names of the children that are kept, in the order of the children. -/
def keptNames : List String → List (Option Nat) → List String
  | name :: names, some _ :: a => name :: keptNames names a
  | _ :: names, none :: a => keptNames names a
  | _, _ => []

theorem length_keptNames (h : KeepsNames particles names a) :
    (keptNames names a).length = kept a := by
  induction h with
  | nil => rfl
  | @cons name o names a _ _ ih =>
      cases o with
      | none => rw [keptNames, kept_none, ih]
      | some j => rw [keptNames, kept_some, List.length_cons, ih, Nat.add_comm]

/-- No run keeps more children of a name than there are. -/
theorem Fills.count_keptNames_le_count (h : Fills particles used names a) (n : String) :
    (keptNames names a).count n ≤ names.count n := by
  induction h with
  | done => exact Nat.le_refl 0
  | drop _ ih => exact Nat.le_trans ih List.count_le_count_cons
  | @take used j u q name names a _ _ _ _ ih =>
      rw [keptNames, List.count_cons, List.count_cons]
      exact Nat.add_le_add_right ih _

/-- No run keeps more children of a name than the particles of that name can take together. -/
theorem Fills.count_keptNames_le_spare (h : Fills particles used names a) (n : String) :
    ((keptNames names a).count n : ℕ∞) ≤ spare n particles used := by
  induction h with
  | done => exact zero_le
  | drop _ ih => exact ih
  | @take used j u q name names a hq hu hfree _ ih =>
      rw [← spare_modify hq hu hfree n, keptNames, List.count_cons, Nat.cast_add]
      refine add_le_add ih ?_
      by_cases hn : name = n <;> simp [hn]

/-- Of the children of a name as many are kept as there are, or as the particles can take. -/
theorem count_keptNames_fillFrom (particles : List (Particle δ)) (used : List Nat)
    (names : List String) (n : String) :
    ((keptNames names (fillFrom particles used names)).count n : ℕ∞) =
      min (names.count n : ℕ∞) (spare n particles used) := by
  induction names generalizing used with
  | nil => exact (min_eq_left (zero_le)).symm
  | cons name names ih =>
      rw [fillFrom]
      cases hroom : room? name particles used with
      | none =>
          show ((keptNames names (fillFrom particles used names)).count n : ℕ∞) = _
          rw [ih used]
          by_cases hn : name = n
          · subst hn
            rw [spare_eq_zero_of_room? hroom, min_eq_right (zero_le), min_eq_right (zero_le)]
          · rw [List.count_cons_of_ne hn]
      | some i =>
          obtain ⟨q, u, hq, hu, hfree⟩ := isFree_of_room? hroom
          show ((name :: keptNames names
            (fillFrom particles (used.modify i (· + 1)) names)).count n : ℕ∞) = _
          rw [← spare_modify hq hu hfree n]
          by_cases hn : name = n
          · subst hn
            rw [List.count_cons_self, List.count_cons_self, if_pos rfl, Nat.cast_add, Nat.cast_add,
              ih, Nat.cast_one, min_add_add_right]
          · rw [List.count_cons_of_ne hn, List.count_cons_of_ne hn, if_neg hn, add_zero, ih]

/-- No assignment keeps more children than `fill` does: of no name are more kept. -/
theorem kept_le_kept_fill (h : IsAssignment particles names a) :
    kept a ≤ kept (fill particles names) := by
  have hrun := fills_iff.mpr h
  have hfill := fills_fillFrom particles (particles.map (fun _ => 0)) names
  have hsub : (keptNames names a).Subperm (keptNames names (fill particles names)) := by
    refine List.subperm_ext_iff.mpr fun n _ => (Nat.cast_le (α := ℕ∞)).mp ?_
    rw [fill, count_keptNames_fillFrom]
    exact le_min (Nat.cast_le.mpr (hrun.count_keptNames_le_count n))
      (hrun.count_keptNames_le_spare n)
  have hle := hsub.length_le
  rwa [length_keptNames h.names, fill, length_keptNames hfill.names_of_kept] at hle

/-! ## Unknown names -/

/-- The child of a name that no particle has is unexpected. -/
theorem strayed_eq_unexpected_iff (c : Content δ) (name : String) :
    c.strayed name = .unexpected ↔ ∀ q ∈ c.particles, q.name ≠ name := by
  unfold strayed
  cases hfound : c.particles.find? (fun q => q.name == name) with
  | none => simpa using hfound
  | some q =>
      have hname : q.name = name := by simpa using List.find?_some hfound
      simp only [reduceCtorEq, false_iff, not_forall]
      exact ⟨q, List.mem_of_find?_eq_some hfound, not_not_intro hname⟩

/-- A slot is that of an unknown child exactly where no particle has the child's name. -/
theorem slot_eq_unexpected_iff (c : Content δ) {name : String} {kept : Option Nat}
    (h : ∀ j, kept = some j → ∃ q, c.particles[j]? = some q ∧ q.name = name) :
    c.slot name kept = .unexpected ↔ ∀ q ∈ c.particles, q.name ≠ name := by
  cases kept with
  | none => exact c.strayed_eq_unexpected_iff name
  | some j =>
      obtain ⟨q, hq, hname⟩ := h j rfl
      simp only [slot, Option.bind_some, hq, reduceCtorEq, false_iff, not_forall]
      exact ⟨q, List.mem_of_getElem? hq, not_not_intro hname⟩

/-- What holds of each child and the particle that keeps it holds of its slot. -/
theorem forall₂_place {R : String → Slot δ → Prop} (c : Content δ) (names : List String)
    (h : List.Forall₂ (fun name kept => R name (c.slot name kept)) names (c.assign names)) :
    List.Forall₂ R names (c.place names) := by
  unfold place
  generalize c.assign names = a at h
  induction h with
  | nil => exact .nil
  | cons hslot _ ih => exact .cons hslot ih

/-! ## Both -/

/-- **Placing is largest**: `align` is an ascending assignment and no ascending assignment keeps
more children; `fill` is an assignment and no assignment keeps more. Every child has its slot, and
it is that of an unknown child exactly if no particle has the child's name. -/
theorem placement_is_largest (particles : List (Particle δ)) (names : List String) :
    (IsAssignment particles names (align particles names) ∧ Ascending (align particles names) ∧
      ∀ a, IsAssignment particles names a → Ascending a →
        kept a ≤ kept (align particles names)) ∧
    (IsAssignment particles names (fill particles names) ∧
      ∀ a, IsAssignment particles names a → kept a ≤ kept (fill particles names)) ∧
    ∀ ordered : Bool, List.Forall₂
      (fun name slot => slot = .unexpected ↔ ∀ q ∈ particles, q.name ≠ name) names
      (place { ordered := ordered, particles := particles } names) := by
  obtain ⟨halign, hascending⟩ := walk_iff.mp (walk_align particles names)
  refine ⟨⟨halign, hascending, fun a ha hup => ?_⟩, ⟨?_, fun a ha => kept_le_kept_fill ha⟩,
    fun ordered => ?_⟩
  · exact kept_le_kept_align (walk_iff.mpr ⟨ha, hup⟩)
  · exact fills_iff.mp (fills_fillFrom particles _ names)
  · refine forall₂_place _ names ?_
    refine (names_of_assign _ names).imp fun name kept hkept => ?_
    exact slot_eq_unexpected_iff _ hkept

end Content

end VideoCatalog.Grammar
