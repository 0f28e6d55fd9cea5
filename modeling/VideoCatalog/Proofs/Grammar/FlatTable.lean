import VideoCatalog.Proofs.Grammar.Alignment

/-!
# The table of gains, laid out flat

`Content.align` keeps a row of the table as a list of lists and reads a default where there is no
entry. Here the same placement is made on a flat table: a row is one list of numbers, the cells of a
particle begin at its offset, and every list is looked at by position. `none` as an outcome means
that some position lay outside its list; nothing else makes a step fail.

* `Layout.cell?_flatten`: the cell of a state is where its offset says, and in the row.
* `Layout.value?_eq`: so every value that is computed is the gain of its state.
* `Layout.rowBefore?_eq`: the values fill the row from its first cell to its last.
* `Layout.follow?_eq`: the states that are followed are states of the table.

Together, no position ever lies outside, and the placement is that of `align`
(`alignWithin_eq`).
-/

namespace VideoCatalog.Grammar

variable {δ : Type}

/-- A value found by looking at lists by position; `none` if a position lies outside its list. -/
abbrev Checked (α : Type) := Option α

namespace Content

/-- The list with the entry at a position replaced. -/
def put? {α : Type} (xs : List α) (i : Nat) (x : α) : Checked (List α) :=
  if i < xs.length then some (xs.set i x) else none

/-! ## The layout -/

/-- How a row is laid out: how many occurrences of each particle are told apart, where its cells
begin, and how many cells there are. -/
structure Layout (δ : Type) where
  particles : List (Particle δ)
  caps : List Nat
  offsets : List Nat
  cells : Nat

/-- Where the cells of each particle begin, the first one's at `start`. -/
def offsetsFrom (start : Nat) : List Nat → List Nat
  | [] => []
  | cap :: caps => start :: offsetsFrom (start + (cap + 1)) caps

/-- How many cells these particles take. -/
def cellsOf (total : Nat) : List (Particle δ) → Nat
  | [] => 0
  | q :: qs => q.cap total + 1 + cellsOf total qs

@[simp] theorem cellsOf_nil (total : Nat) : cellsOf total ([] : List (Particle δ)) = 0 := rfl

@[simp] theorem cellsOf_cons (total : Nat) (q : Particle δ) (qs : List (Particle δ)) :
    cellsOf total (q :: qs) = q.cap total + 1 + cellsOf total qs := rfl

/-- The layout for these particles and this number of children. -/
def Layout.of (total : Nat) (particles : List (Particle δ)) : Layout δ where
  particles := particles
  caps := particles.map (Particle.cap total)
  offsets := offsetsFrom 0 (particles.map (Particle.cap total))
  cells := cellsOf total particles

namespace Layout

/-- The position of the cell of particle `p` with count `k`. -/
def position? (l : Layout δ) (p k : Nat) : Checked Nat := do
  let offset ← l.offsets[p]?
  some (offset + k)

/-- The entry of a row for particle `p` with count `k`. -/
def cell? (l : Layout δ) (row : List Nat) (p k : Nat) : Checked Nat := do
  let i ← l.position? p k
  row[i]?

/-- The count after one more child of this name at particle `p`, if there is room. -/
def stay? (l : Layout δ) (p k : Nat) (name : String) : Checked (Option Nat) := do
  let q ← l.particles[p]?
  if q.name ≠ name then some none
  else
    match q.max with
    | none => some (some 1)
    | some _ => do
      let cap ← l.caps[p]?
      some (if k < cap then some (k + 1) else none)

/-- Whether a child of this name can move on to particle `j`. -/
def admits? (l : Layout δ) (j : Nat) (name : String) : Checked Bool := do
  let q ← l.particles[j]?
  some (q.admits name)

/-- The particles behind particle `p`. -/
def ahead (l : Layout δ) (p : Nat) : List Nat :=
  List.range' (p + 1) (l.particles.length - (p + 1))

/-! ## Filling the table -/

/-- The gain of keeping a child at the particle where it is due. -/
def stayGain? (l : Layout δ) (after : List Nat) (name : String) (p k : Nat) : Checked Nat := do
  match ← l.stay? p k name with
  | none => some 0
  | some next => do
    let gain ← l.cell? after p next
    some (1 + gain)

/-- The greatest gain of keeping a child by moving on to one of these particles. -/
def moveGain? (l : Layout δ) (after : List Nat) (name : String) : List Nat → Checked Nat
  | [] => some 0
  | j :: js => do
    let later ← l.moveGain? after name js
    if ← l.admits? j name then do
      let gain ← l.cell? after j 1
      some (max (1 + gain) later)
    else some later

/-- The gain of a state in front of a child, from the row behind the child. -/
def value? (l : Layout δ) (after : List Nat) (name : String) (p k : Nat) : Checked Nat := do
  let dropped ← l.cell? after p k
  let kept ← l.stayGain? after name p k
  let moved ← l.moveGain? after name (l.ahead p)
  some (max dropped (max kept moved))

/-- The states of these particles, particle by particle and count by count. -/
def states? (l : Layout δ) : List Nat → Checked (List (Nat × Nat))
  | [] => some []
  | p :: ps => do
    let cap ← l.caps[p]?
    let later ← l.states? ps
    some ((List.range (cap + 1)).map (fun k => (p, k)) ++ later)

/-- Where the value of a state is written, and the value. -/
def write? (l : Layout δ) (after : List Nat) (name : String) (state : Nat × Nat) :
    Checked (Nat × Nat) := do
  let value ← l.value? after name state.1 state.2
  let i ← l.position? state.1 state.2
  some (i, value)

/-- The row in front of a child: the value of each state is written into its cell. -/
def rowBefore? (l : Layout δ) (after : List Nat) (name : String) : Checked (List Nat) := do
  let states ← l.states? (List.range l.particles.length)
  states.foldlM
    (fun row state => do
      let (i, value) ← l.write? after name state
      put? row i value)
    (List.replicate l.cells 0)

/-- The rows in front of each child and behind the last one. -/
def rows? (l : Layout δ) : List String → Checked (List (List Nat))
  | [] => some [List.replicate l.cells 0]
  | name :: names => do
    let later ← l.rows? names
    let after ← later[0]?
    let row ← l.rowBefore? after name
    some (row :: later)

/-! ## Following it -/

/-- The count at which a child stays at particle `p` with the wanted gain. -/
def stayAt? (l : Layout δ) (after : List Nat) (name : String) (p k target : Nat) :
    Checked (Option Nat) := do
  match ← l.stay? p k name with
  | none => some none
  | some next => do
    let gain ← l.cell? after p next
    some (if 1 + gain = target then some next else none)

/-- The first of these particles to which a child can move on with the wanted gain. -/
def moveOn? (l : Layout δ) (after : List Nat) (name : String) (target : Nat) :
    List Nat → Checked (Option Nat)
  | [] => some none
  | j :: js => do
    if ← l.admits? j name then do
      let gain ← l.cell? after j 1
      if 1 + gain = target then some (some j) else l.moveOn? after name target js
    else l.moveOn? after name target js

/-- Follows the gains of a table from the child at position `i` and the state at particle `p` with
count `k`. -/
def follow? (l : Layout δ) (table : List (List Nat)) :
    Nat → Nat → Nat → List String → Checked (List (Option Nat))
  | _, _, _, [] => some []
  | i, p, k, name :: names => do
    let before ← table[i]?
    let target ← l.cell? before p k
    if target = 0 then some (none :: names.map (fun _ => none))
    else do
      let after ← table[i + 1]?
      match ← l.stayAt? after name p k target with
      | some next => do
        let rest ← l.follow? table (i + 1) p next names
        some (some p :: rest)
      | none => do
        match ← l.moveOn? after name target (l.ahead p) with
        | some j => do
          let rest ← l.follow? table (i + 1) j 1 names
          some (some j :: rest)
        | none => do
          let rest ← l.follow? table (i + 1) p k names
          some (none :: rest)

end Layout

/-- Ordered content, placed by a flat table. -/
def alignWithin (particles : List (Particle δ)) (names : List String) :
    Checked (List (Option Nat)) :=
  if particles.isEmpty then some (names.map (fun _ => none))
  else do
    let l := Layout.of names.length particles
    let table ← l.rows? names
    l.follow? table 0 0 0 names

/-! ## Cells -/

namespace Layout

variable {total p k j n target start : Nat} {particles : List (Particle δ)} {q : Particle δ}
  {name : String} {names : List String} {row after : Row}

/-- The cells of a particle begin behind those of all before it. -/
theorem getElem?_offsetsFrom (start : Nat) (hp : p < particles.length) :
    (offsetsFrom start (particles.map (Particle.cap total)))[p]? =
      some (start + cellsOf total (particles.take p)) := by
  induction particles generalizing start p with
  | nil => exact absurd hp (Nat.not_lt_zero _)
  | cons q qs ih =>
      rw [List.map_cons, offsetsFrom]
      cases p with
      | zero => rfl
      | succ p =>
          rw [List.getElem?_cons_succ, ih _ (Nat.lt_of_succ_lt_succ hp), List.take_succ_cons,
            cellsOf_cons, Nat.add_assoc]

theorem position?_eq (hp : p < particles.length) (k : Nat) :
    (Layout.of total particles).position? p k =
      some (cellsOf total (particles.take p) + k) := by
  have hoffset : (offsetsFrom 0 (particles.map (Particle.cap total)))[p]? =
      some (0 + cellsOf total (particles.take p)) := getElem?_offsetsFrom 0 hp
  rw [Nat.zero_add] at hoffset
  rw [position?, Layout.of]
  dsimp only
  rw [hoffset]
  rfl

/-- What a row has behind the cells of all particles before one are the gains of that one. -/
theorem getElem?_flatten (h : IsRow total particles row) (hq : particles[p]? = some q)
    (hk : k ≤ q.cap total) :
    row.flatten[cellsOf total (particles.take p) + k]? = some (gain row p k) := by
  induction h generalizing p with
  | nil => cases hq
  | @cons q' gains qs rest hlength _ ih =>
      rw [List.flatten_cons]
      cases p with
      | zero =>
          obtain rfl := Option.some.inj hq
          have hin : k < gains.length := by omega
          rw [List.take_zero, cellsOf_nil, Nat.zero_add, List.getElem?_append_left hin,
            gain_cons_zero, List.getD_eq_getElem _ _ hin, List.getElem?_eq_getElem hin]
      | succ p =>
          rw [List.take_succ_cons, cellsOf_cons, ← hlength, Nat.add_assoc,
            List.getElem?_append_right (Nat.le_add_right _ _), Nat.add_sub_cancel_left]
          exact ih hq

/-- The cell of a state holds its gain. -/
theorem cell?_flatten (h : IsRow total particles row) (hq : particles[p]? = some q)
    (hk : k ≤ q.cap total) :
    (Layout.of total particles).cell? row.flatten p k = some (gain row p k) := by
  have hp : p < particles.length := (List.getElem?_eq_some_iff.mp hq).1
  rw [cell?, position?_eq hp]
  exact getElem?_flatten h hq hk

theorem stay?_eq (hq : particles[p]? = some q) :
    (Layout.of total particles).stay? p k name = some (q.stay? total k name) := by
  have hcap : (particles.map (Particle.cap total))[p]? = some (q.cap total) := by
    rw [List.getElem?_map, hq]
    rfl
  rw [stay?, Particle.stay?, Layout.of]
  dsimp only
  rw [hq, Option.bind_eq_bind, Option.bind_some, hcap]
  by_cases hname : q.name ≠ name
  · rw [if_pos hname, if_pos hname]
  · rw [if_neg hname, if_neg hname]
    cases q.max <;> rfl

theorem admits?_eq (hq : particles[j]? = some q) :
    (Layout.of total particles).admits? j name = some (q.admits name) := by
  rw [admits?, Layout.of]
  dsimp only
  rw [hq]
  rfl

/-! ## One row -/

theorem stayGain?_eq (h : IsRow total particles after) (hq : particles[p]? = some q) :
    (Layout.of total particles).stayGain? after.flatten name p k =
      some (stayGain total q (after.getD p []) name k) := by
  rw [stayGain?, stay?_eq hq, stayGain, Option.bind_eq_bind, Option.bind_some]
  cases hstay : q.stay? total k name with
  | none => rfl
  | some next =>
      have hcell := cell?_flatten h hq (Particle.le_cap_of_stay? hstay)
      dsimp only
      rw [hcell]
      rfl

/-- What the particles from `j` on gain at most, if a child moves on to one of them. -/
theorem moveGain?_eq (h : IsRow total particles after) (htotal : 0 < total) :
    ∀ (n j : Nat), j + n = particles.length →
      (Layout.of total particles).moveGain? after.flatten name (List.range' j n) =
        some (rowBefore total name (particles.drop j) (after.drop j)).2
  | 0, j, hn => by
      have hend : particles.length ≤ j := by omega
      rw [List.drop_eq_nil_of_le hend]
      rfl
  | n + 1, j, hn => by
      have hj : j < particles.length := by omega
      have hq : particles[j]? = some particles[j] := List.getElem?_eq_getElem hj
      have hj' : j < after.length := h.length_eq ▸ hj
      have hlater := moveGain?_eq h htotal n (j + 1) (by omega)
      rw [List.range'_succ, moveGain?, hlater, List.drop_eq_getElem_cons hj,
        List.drop_eq_getElem_cons hj', rowBefore_cons, admits?_eq hq]
      simp only [Option.bind_eq_bind, Option.bind_some]
      by_cases hadmits : particles[j].admits name = true
      · have hone := Particle.one_le_cap (Particle.admits_iff.mp hadmits).2 htotal
        have hgain : gain after j 1 = after[j].getD 1 0 := by
          rw [gain, List.getD_eq_getElem _ _ hj']
        rw [if_pos hadmits, if_pos hadmits, cell?_flatten h hq hone, hgain]
        rfl
      · rw [if_neg hadmits, if_neg hadmits, Nat.zero_max]

/-- The value computed for a state is its gain. -/
theorem value?_eq (h : IsRow total particles after) (htotal : 0 < total)
    (hq : particles[p]? = some q) (hk : k ≤ q.cap total) :
    (Layout.of total particles).value? after.flatten name p k =
      some (gain (rowBefore total name particles after).1 p k) := by
  have hp : p < particles.length := (List.getElem?_eq_some_iff.mp hq).1
  have hmoved : (Layout.of total particles).moveGain? after.flatten name
      (List.range' (p + 1) (particles.length - (p + 1))) =
        some (rowBefore total name (particles.drop (p + 1)) (after.drop (p + 1))).2 :=
    moveGain?_eq h htotal _ _ (by omega)
  rw [value?, cell?_flatten h hq hk, stayGain?_eq h hq, gain_rowBefore name h hq hk]
  simp only [Option.bind_eq_bind, Option.bind_some]
  rw [ahead]
  show Option.bind ((Layout.of total particles).moveGain? after.flatten name
    (List.range' (p + 1) (particles.length - (p + 1)))) _ = _
  rw [hmoved]
  rfl

/-! ## Filling a row -/

/-- Values written from the first cell on, one after another, take the place of what was there. -/
theorem foldlM_put? {σ : Type} (write : σ → Checked (Nat × Nat)) :
    ∀ (states : List σ) (values done : List Nat),
      states.map write = (values.zipIdx done.length).map (fun entry => some (entry.2, entry.1)) →
        states.foldlM (fun row state => do
            let (i, value) ← write state
            put? row i value) (done ++ List.replicate values.length 0) = some (done ++ values)
  | [], [], done, _ => by simp
  | [], _ :: _, _, h => by simp at h
  | _ :: _, [], _, h => by simp at h
  | state :: states, value :: values, done, h => by
      rw [List.map_cons, List.zipIdx_cons, List.map_cons] at h
      obtain ⟨hfirst, hrest⟩ := List.cons.inj h
      have hin : done.length < (done ++ List.replicate (values.length + 1) 0).length := by
        simp
      have hput : put? (done ++ List.replicate (values.length + 1) 0) done.length value =
          some (done ++ [value] ++ List.replicate values.length 0) := by
        rw [put?, if_pos hin, List.set_append_right _ _ (Nat.le_refl _), Nat.sub_self,
          List.replicate_succ, List.set_cons_zero, List.append_assoc, List.singleton_append]
      have hlater := foldlM_put? write states values (done ++ [value])
        (by rw [List.length_append, List.length_singleton]; exact hrest)
      rw [List.foldlM_cons, hfirst]
      simp only [Option.bind_eq_bind, Option.bind_some, List.length_cons]
      rw [hput, Option.bind_some]
      rw [Option.bind_eq_bind] at hlater
      rw [hlater, List.append_assoc, List.singleton_append]

/-- The states of these particles, the first of which is particle `n`, in the order of their
cells. -/
def statesFrom (total : Nat) : Nat → List (Particle δ) → List (Nat × Nat)
  | _, [] => []
  | n, q :: qs =>
    (List.range (q.cap total + 1)).map (fun k => (n, k)) ++ statesFrom total (n + 1) qs

theorem states?_eq (total : Nat) (particles : List (Particle δ)) :
    ∀ (m n : Nat), n + m = particles.length →
      (Layout.of total particles).states? (List.range' n m) =
        some (statesFrom total n (particles.drop n))
  | 0, n, hn => by
      have hend : particles.length ≤ n := by omega
      rw [List.drop_eq_nil_of_le hend]
      rfl
  | m + 1, n, hn => by
      have hp : n < particles.length := by omega
      have hcap : (Layout.of total particles).caps[n]? = some (particles[n].cap total) := by
        show (particles.map (Particle.cap total))[n]? = _
        rw [List.getElem?_map, List.getElem?_eq_getElem hp]
        rfl
      rw [List.range'_succ, states?, states?_eq total particles m (n + 1) (by omega), hcap,
        List.drop_eq_getElem_cons hp]
      rfl

/-- Values written state by state, in the order of their cells, are the entries of a row one after
another. -/
theorem map_statesFrom (write : Nat × Nat → Checked (Nat × Nat))
    (h : IsRow total particles row) (n start : Nat)
    (hwrite : ∀ i k q, particles[i]? = some q → k ≤ q.cap total →
      write (n + i, k) = some (start + cellsOf total (particles.take i) + k, gain row i k)) :
    (statesFrom total n particles).map write =
      (row.flatten.zipIdx start).map (fun entry => some (entry.2, entry.1)) := by
  induction h generalizing n start with
  | nil => rfl
  | @cons q gains qs rest hlength _ ih =>
      rw [statesFrom, List.map_append, List.flatten_cons, List.zipIdx_append, List.map_append]
      congr 1
      · -- the cells of the first particle, count by count
        refine List.ext_getElem (by simp [hlength]) ?_
        intro k hk _
        have hcount : k < q.cap total + 1 := by simpa using hk
        have hgains : k < gains.length := hlength ▸ hcount
        have hfirst := hwrite 0 k q rfl (Nat.le_of_lt_succ hcount)
        rw [List.take_zero, cellsOf_nil, Nat.add_zero, gain_cons_zero,
          List.getD_eq_getElem _ _ hgains] at hfirst
        simpa using hfirst
      · refine ih (n + 1) (start + gains.length) ?_
        intro i k q' hq' hk
        have hlater := hwrite (i + 1) k q' hq' hk
        rw [List.take_succ_cons, cellsOf_cons, gain_cons_succ, ← hlength, ← Nat.add_assoc start]
          at hlater
        rw [Nat.add_assoc n 1 i, Nat.add_comm 1 i]
        exact hlater

theorem length_flatten (h : IsRow total particles row) :
    row.flatten.length = cellsOf total particles := by
  induction h with
  | nil => rfl
  | cons hlength _ ih => rw [List.flatten_cons, List.length_append, hlength, ih, cellsOf_cons]

/-- The row in front of a child holds the gains there, and every value was written into it. -/
theorem rowBefore?_eq (h : IsRow total particles after) (htotal : 0 < total) (name : String) :
    (Layout.of total particles).rowBefore? after.flatten name =
      some (rowBefore total name particles after).1.flatten := by
  have hrow : IsRow total particles (rowBefore total name particles after).1 :=
    isRow_rowBefore h
  have hstates := states?_eq total particles particles.length 0 (Nat.zero_add _)
  rw [List.drop_zero, ← List.range_eq_range'] at hstates
  have hwrites := map_statesFrom ((Layout.of total particles).write? after.flatten name)
    hrow 0 0 ?_
  · have hfilled := foldlM_put? _ _ _ [] hwrites
    rw [List.nil_append, List.nil_append, length_flatten hrow] at hfilled
    show Option.bind ((Layout.of total particles).states? (List.range particles.length)) _ = _
    rw [hstates]
    exact hfilled
  · intro i k q hq hk
    have hp : i < particles.length := (List.getElem?_eq_some_iff.mp hq).1
    rw [Nat.zero_add, Nat.zero_add, write?, value?_eq h htotal hq hk, position?_eq hp]
    rfl

/-! ## The whole table -/

theorem flatten_lastRow (total : Nat) (particles : List (Particle δ)) :
    (lastRow total particles).flatten = List.replicate (cellsOf total particles) 0 := by
  induction particles with
  | nil => rfl
  | cons q qs ih =>
      have hcells := List.replicate_add (q.cap total + 1) (cellsOf total qs) (a := 0)
      rw [lastRow, List.map_cons, List.flatten_cons, cellsOf_cons, hcells]
      exact congrArg (List.replicate (q.cap total + 1) 0 ++ ·) ih

/-- The rows of the flat table are those of the table, each laid out flat. -/
theorem rows?_eq (total : Nat) (particles : List (Particle δ)) :
    ∀ names : List String, names.length ≤ total →
      (Layout.of total particles).rows? names =
        some ((rows total particles names).map List.flatten)
  | [], _ => by
      rw [rows?, rows, List.map_singleton, flatten_lastRow]
      rfl
  | name :: names, hlength => by
      have htotal : 0 < total := Nat.lt_of_lt_of_le (Nat.succ_pos _) hlength
      have hrow := isRow_firstRow total particles names
      obtain ⟨later, hlater⟩ := rows_eq total particles names
      rw [rows?, rows?_eq total particles names (Nat.le_of_succ_le hlength), rows_cons, hlater]
      simp only [Option.bind_eq_bind, Option.bind_some, List.map_cons, List.getElem?_cons_zero]
      rw [rowBefore?_eq hrow htotal, firstRow]
      rfl

/-! ## Following it -/

theorem stayAt?_eq (h : IsRow total particles after) (hq : particles[p]? = some q) :
    (Layout.of total particles).stayAt? after.flatten name p k target =
      some (Content.stayAt? total particles after name p k target) := by
  rw [stayAt?, stay?_eq hq, Content.stayAt?, hq]
  simp only [Option.bind_eq_bind, Option.bind_some]
  cases hstay : q.stay? total k name with
  | none => rfl
  | some next =>
      have hcell := cell?_flatten h hq (Particle.le_cap_of_stay? hstay)
      dsimp only
      rw [hcell]
      simp only [Option.bind_some, Option.filter, beq_iff_eq]

/-- Looking on from particle `j` finds the first particle from there on with the wanted gain. -/
theorem moveOn?_range' (h : IsRow total particles after) (htotal : 0 < total) :
    ∀ (n j : Nat), j + n = particles.length → p < j →
      (Layout.of total particles).moveOn? after.flatten name target (List.range' j n) =
        some ((List.range' j n).find? (fun j =>
          p < j && (particles[j]?.map (fun q => q.admits name)).getD false &&
            1 + gain after j 1 == target))
  | 0, _, _, _ => rfl
  | n + 1, j, hn, hp => by
      have hj : j < particles.length := by omega
      have hq : particles[j]? = some particles[j] := List.getElem?_eq_getElem hj
      have hlater := moveOn?_range' h htotal n (j + 1) (by omega) (Nat.lt_succ_of_lt hp)
      rw [List.range'_succ, moveOn?, hlater, admits?_eq hq, List.find?_cons, hq]
      by_cases hadmits : particles[j].admits name = true
      · have hone := Particle.one_le_cap (Particle.admits_iff.mp hadmits).2 htotal
        have hcell := cell?_flatten h hq hone
        by_cases htarget : 1 + gain after j 1 = target
        · simp [hp, hadmits, htarget, hcell]
        · have hbeq : (1 + gain after j 1 == target) = false := beq_eq_false_iff_ne.mpr htarget
          simp [hp, hadmits, htarget, hcell, hbeq]
      · simp [hp, hadmits]

theorem moveOn?_eq (h : IsRow total particles after) (htotal : 0 < total)
    (hp : p < particles.length) :
    (Layout.of total particles).moveOn? after.flatten name target
        ((Layout.of total particles).ahead p) =
      some (Content.moveOn? particles after name p target) := by
  have hsplit : List.range particles.length =
      List.range (p + 1) ++ List.range' (p + 1) (particles.length - (p + 1)) := by
    have happend := List.range'_append_1 (s := 0) (m := p + 1) (n := particles.length - (p + 1))
    rw [Nat.zero_add, Nat.add_sub_of_le hp] at happend
    rw [List.range_eq_range', List.range_eq_range', happend]
  have hahead : (Layout.of total particles).moveOn? after.flatten name target
      (List.range' (p + 1) (particles.length - (p + 1))) =
        some ((List.range' (p + 1) (particles.length - (p + 1))).find? (fun j =>
          p < j && (particles[j]?.map (fun q => q.admits name)).getD false &&
            1 + gain after j 1 == target)) :=
    moveOn?_range' h htotal _ _ (by omega) (Nat.lt_succ_self p)
  have hbehind : (List.range (p + 1)).find? (fun j =>
      p < j && (particles[j]?.map (fun q => q.admits name)).getD false &&
        1 + gain after j 1 == target) = none := by
    refine List.find?_eq_none.mpr ?_
    intro j hj
    have hle : ¬p < j := by
      have := List.mem_range.mp hj
      omega
    simp [hle]
  rw [Content.moveOn?, hsplit, List.find?_append, hbehind, Option.none_or]
  exact hahead

/-- Following the flat table from a state of it gives what following the table gives. -/
theorem follow?_eq (table : List (List Nat)) :
    ∀ (names : List String) {i p k : Nat} {q : Particle δ}, particles[p]? = some q →
      k ≤ q.cap total → names.length ≤ total →
      table.drop i = (rows total particles names).map List.flatten →
      (Layout.of total particles).follow? table i p k names =
        some (follow total particles p k names (rows total particles names))
  | [], _, _, _, _, _, _, _, _ => rfl
  | name :: names, i, p, k, q, hq, hk, hlength, htable => by
      have htotal : 0 < total := Nat.lt_of_lt_of_le (Nat.succ_pos _) hlength
      have hbelow : names.length ≤ total := Nat.le_of_succ_le hlength
      have hp : p < particles.length := (List.getElem?_eq_some_iff.mp hq).1
      have hrow := isRow_firstRow total particles names
      obtain ⟨later, hlater⟩ := rows_eq total particles names
      rw [rows_cons, hlater] at htable
      -- the two rows that are looked at are the first two that are left of the table
      have hbefore : table[i]? = some (firstRow total particles (name :: names)).flatten := by
        rw [← Nat.add_zero i, ← List.getElem?_drop, htable]
        rfl
      have hafter : table[i + 1]? = some (firstRow total particles names).flatten := by
        rw [← List.getElem?_drop, htable]
        rfl
      have hnext : table.drop (i + 1) = (rows total particles names).map List.flatten := by
        rw [← List.drop_drop, htable, hlater]
        rfl
      have hcell := cell?_flatten (isRow_firstRow total particles (name :: names)) hq hk
      rw [rows_cons, hlater, follow, follow?, hbefore, hafter, ← hlater]
      simp only [Option.bind_eq_bind, Option.bind_some]
      rw [hcell, Option.bind_some]
      by_cases hzero : gain (firstRow total particles (name :: names)) p k = 0
      · rw [if_pos hzero, if_pos hzero]
      · rw [if_neg hzero, if_neg hzero, stayAt?_eq hrow hq, Option.bind_some]
        cases hstay : Content.stayAt? total particles (firstRow total particles names) name p k
            (gain (firstRow total particles (name :: names)) p k) with
        | some next =>
            obtain ⟨q', hq', hroom, -⟩ := stayAt?_eq_some_iff.mp hstay
            dsimp only
            rw [follow?_eq table names hq' (Particle.le_cap_of_stay? hroom) hbelow hnext]
            rfl
        | none =>
            dsimp only
            rw [moveOn?_eq hrow htotal hp, Option.bind_some]
            cases hmove : Content.moveOn? particles (firstRow total particles names) name p
                (gain (firstRow total particles (name :: names)) p k) with
            | some j =>
                obtain ⟨q', -, hq', hadmits, -⟩ := moveOn?_eq_some hmove
                have hone := Particle.one_le_cap (Particle.admits_iff.mp hadmits).2 htotal
                dsimp only
                rw [follow?_eq table names hq' hone hbelow hnext]
                rfl
            | none =>
                dsimp only
                rw [follow?_eq table names hq hk hbelow hnext]
                rfl

end Layout

/-- No position lies outside the table, its rows and its offsets, and the placement is the same. -/
theorem alignWithin_eq (particles : List (Particle δ)) (names : List String) :
    alignWithin particles names = some (align particles names) := by
  cases particles with
  | nil => rfl
  | cons q qs =>
      have hfirst : (q :: qs)[0]? = some q := rfl
      have hrows := Layout.rows?_eq names.length (q :: qs) names (Nat.le_refl _)
      show Option.bind ((Layout.of names.length (q :: qs)).rows? names) _ = _
      rw [hrows]
      exact Layout.follow?_eq _ names hfirst (Nat.zero_le _) (Nat.le_refl _) rfl

end Content

end VideoCatalog.Grammar
