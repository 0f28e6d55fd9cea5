import Mathlib.Data.List.Nodup
import Mathlib.Logic.Function.Basic
import VideoCatalog.Store

/-!
# The collection is an ordered dictionary

A `Store` is a bare list of records, and each of its operations looks for the first record with an
id. That this record is the only one is not written into the type; it is what all operations keep.

`Dictionary` is the data structure that the collection stands for: the ids held, in the order in
which they came, and for each of them a record. Its operations never search a list of records.
`Store.Represents` ties a collection to a dictionary, and `Store.Represents.perform` is the step:
whatever the operation, both give the same answer and are still tied together. The induction over
the operations is then `Store.Represents.performAll`.

What an operation does to the list itself is stated by the place of a record in it: `Store.Entry`
names the record with an id, the records in front of it and those behind it. Where ids are distinct
there is one such place at most (`Store.Entry.unique`), and `Store.IsOrderedDictionary` collects
what the operations make of it.
-/

namespace VideoCatalog

namespace Store

variable {s s' : Store} {r x x' : Record} {id : Int64} {e : StoreError}
  {before before' after after' : List Record}

theorem contains_eq_true_iff : s.contains id = true ↔ id ∈ s.ids := by
  simp [contains, ids]

theorem mem_ids_iff : id ∈ s.ids ↔ ∃ x ∈ s.records, x.id = id :=
  List.mem_map

/-! ## Adding at the end -/

/-- A collection with one more record at the end. -/
def push (s : Store) (r : Record) : Store :=
  { records := s.records ++ [r] }

theorem ids_push : (s.push r).ids = s.ids ++ [r.id] := by
  simp [ids, push]

theorem nodup_ids_push (hdistinct : s.ids.Nodup) (h : r.id ∉ s.ids) : (s.push r).ids.Nodup := by
  rw [ids_push]
  exact List.nodup_append_comm.mp (List.nodup_cons.mpr ⟨h, hdistinct⟩)

theorem append_of_fresh (h : r.id ∉ s.ids) : s.append r = (.ok (), s.push r) := by
  rw [append, if_neg (mt contains_eq_true_iff.mp h)]
  rfl

theorem append_of_taken (h : r.id ∈ s.ids) : s.append r = (.error (.conflict r.id), s) := by
  rw [append, if_pos (contains_eq_true_iff.mpr h)]

theorem append_eq_error_iff : (s.append r).1 = .error e ↔ r.id ∈ s.ids ∧ e = .conflict r.id := by
  by_cases h : r.id ∈ s.ids
  · simp [append_of_taken h, h, eq_comm]
  · simp [append_of_fresh h, h]

/-! ## The place of a record -/

/-- The record with an id, and the records in front of it and behind it. -/
structure Entry (s : Store) (id : Int64) (before : List Record) (x : Record)
    (after : List Record) : Prop where
  records : s.records = before ++ x :: after
  id : x.id = id

theorem exists_entry (h : id ∈ s.ids) : ∃ before x after, s.Entry id before x after := by
  obtain ⟨x, hx, hid⟩ := mem_ids_iff.mp h
  obtain ⟨before, after, hrecords⟩ := List.append_of_mem hx
  exact ⟨before, x, after, hrecords, hid⟩

namespace Entry

theorem ids_eq (h : s.Entry id before x after) :
    s.ids = before.map Record.id ++ id :: after.map Record.id := by
  rw [ids, h.records, List.map_append, List.map_cons, h.id]

theorem mem_ids (h : s.Entry id before x after) : id ∈ s.ids := by
  rw [h.ids_eq]
  exact List.mem_append_right _ List.mem_cons_self

theorem mem_records (h : s.Entry id before x after) : x ∈ s.records := by
  rw [h.records]
  exact List.mem_append_right _ List.mem_cons_self

/-- Where ids are distinct, the id stands neither in front of its record nor behind it. -/
theorem not_mem_around (h : s.Entry id before x after) (hdistinct : s.ids.Nodup) :
    id ∉ before.map Record.id ∧ id ∉ after.map Record.id := by
  rw [h.ids_eq, List.nodup_middle, List.nodup_cons, List.mem_append, not_or] at hdistinct
  exact hdistinct.1

theorem ne_of_mem_before (h : s.Entry id before x after) (hdistinct : s.ids.Nodup) {y : Record}
    (hy : y ∈ before) : y.id ≠ id := by
  intro heq
  exact (h.not_mem_around hdistinct).1 (heq ▸ List.mem_map_of_mem hy)

theorem ne_of_mem_after (h : s.Entry id before x after) (hdistinct : s.ids.Nodup) {y : Record}
    (hy : y ∈ after) : y.id ≠ id := by
  intro heq
  exact (h.not_mem_around hdistinct).2 (heq ▸ List.mem_map_of_mem hy)

/-- Where ids are distinct, an id has one place at most. -/
theorem unique (h : s.Entry id before x after) (h' : s.Entry id before' x' after')
    (hdistinct : s.ids.Nodup) : before = before' ∧ x = x' ∧ after = after' := by
  have hsame := h.records.symm.trans h'.records
  rcases List.append_eq_append_iff.mp hsame with ⟨l, rfl, htail⟩ | ⟨l, rfl, htail⟩
  · cases l with
    | nil => exact ⟨(List.append_nil _).symm, List.cons.inj htail⟩
    | cons y ys =>
        obtain ⟨rfl, -⟩ := List.cons.inj htail
        exact absurd h.id (h'.ne_of_mem_before hdistinct (by simp))
  · cases l with
    | nil =>
        obtain ⟨hx, hafter⟩ := List.cons.inj htail
        exact ⟨List.append_nil _, hx.symm, hafter.symm⟩
    | cons y ys =>
        obtain ⟨rfl, -⟩ := List.cons.inj htail
        exact absurd h'.id (h.ne_of_mem_before hdistinct (by simp))

end Entry

/-! ## Replacing, removing, finding -/

theorem replaceFirst_append (h : ∀ y ∈ before, y.id ≠ id) (hx : x.id = id) :
    replaceFirst id r (before ++ x :: after) = before ++ r :: after := by
  induction before with
  | nil => simp [replaceFirst, hx]
  | cons y ys ih =>
      obtain ⟨hy, hys⟩ := List.forall_mem_cons.mp h
      rw [List.cons_append, replaceFirst, if_neg (by simpa using hy), ih hys, List.cons_append]

theorem replace_of_absent (h : id ∉ s.ids) : s.replace id r = (.error (.notFound id), s) := by
  rw [replace, if_pos]
  rw [Bool.not_eq_true', ← Bool.not_eq_true, contains_eq_true_iff]
  exact h

theorem replace_of_taken (h : id ∈ s.ids) (hne : r.id ≠ id) (htaken : r.id ∈ s.ids) :
    s.replace id r = (.error (.conflict r.id), s) := by
  rw [← contains_eq_true_iff] at h htaken
  rw [replace, if_neg (by simp [h]), if_pos (by simp [hne, htaken])]

/-- The record with an id gives way to another one that bears the same id or a fresh one. -/
theorem replace_of_entry (hdistinct : s.ids.Nodup) (h : s.Entry id before x after)
    (hid : r.id = id ∨ r.id ∉ s.ids) :
    s.replace id r = (.ok (), { records := before ++ r :: after }) := by
  have hheld : s.contains id = true := contains_eq_true_iff.mpr h.mem_ids
  have hfree : ¬ (decide (r.id ≠ id) && s.contains r.id) = true := by
    rw [Bool.and_eq_true, decide_eq_true_eq, contains_eq_true_iff]
    rintro ⟨hne, htaken⟩
    exact hid.elim hne (fun hfresh => hfresh htaken)
  rw [replace, if_neg (by simp [hheld]), if_neg hfree, h.records,
    replaceFirst_append (fun _ hy => h.ne_of_mem_before hdistinct hy) h.id]

theorem replace_eq_error_iff (hdistinct : s.ids.Nodup) :
    (s.replace id r).1 = .error e ↔
      id ∉ s.ids ∧ e = .notFound id ∨
        id ∈ s.ids ∧ (r.id ≠ id ∧ r.id ∈ s.ids) ∧ e = .conflict r.id := by
  by_cases h : id ∈ s.ids
  · by_cases htaken : r.id ≠ id ∧ r.id ∈ s.ids
    · simp [replace_of_taken h htaken.1 htaken.2, h, htaken, eq_comm]
    · obtain ⟨before, x, after, hentry⟩ := exists_entry h
      have hid : r.id = id ∨ r.id ∉ s.ids := by
        rw [not_and_or, not_not] at htaken
        exact htaken
      simp [replace_of_entry hdistinct hentry hid, h, htaken]
  · simp [replace_of_absent h, h, eq_comm]

theorem remove_of_absent (h : id ∉ s.ids) : s.remove id = (.error (.notFound id), s) := by
  rw [remove, if_neg (mt contains_eq_true_iff.mp h)]

theorem remove_of_entry (hdistinct : s.ids.Nodup) (h : s.Entry id before x after) :
    s.remove id = (.ok (), { records := before ++ after }) := by
  have hfront : ∀ y ∈ before, ¬ (y.id == id) = true := fun y hy => by
    simpa using h.ne_of_mem_before hdistinct hy
  rw [remove, if_pos (contains_eq_true_iff.mpr h.mem_ids), h.records,
    List.eraseP_append_right _ hfront, List.eraseP_cons_of_pos (by simpa using h.id)]

theorem find_of_absent (h : id ∉ s.ids) : s.find id = .error (.notFound id) := by
  have hnone : s.records.find? (fun x => x.id == id) = none := by
    refine List.find?_eq_none.mpr fun x hx hid => h ?_
    exact mem_ids_iff.mpr ⟨x, hx, by simpa using hid⟩
  simp only [find, hnone]

theorem find_of_entry (hdistinct : s.ids.Nodup) (h : s.Entry id before x after) :
    s.find id = .ok x := by
  have hsome : s.records.find? (fun y => y.id == id) = some x := by
    have hfront : before.find? (fun y => y.id == id) = none := by
      refine List.find?_eq_none.mpr fun y hy => ?_
      simpa using h.ne_of_mem_before hdistinct hy
    rw [h.records, List.find?_append, hfront, Option.none_or,
      List.find?_cons_of_pos (by simpa using h.id)]
  simp only [find, hsome]

/-! ## Refusals -/

/-- A record that is not added leaves the collection alone. -/
theorem append_of_error (h : (s.append r).1 = .error e) : (s.append r).2 = s := by
  rw [append_of_taken (append_eq_error_iff.mp h).1]

/-- A record that is not put in leaves the collection alone. -/
theorem replace_of_error (h : (s.replace id r).1 = .error e) : (s.replace id r).2 = s := by
  unfold replace at h ⊢
  split
  · rfl
  · next hheld =>
    rw [if_neg hheld] at h
    split
    · rfl
    · next hfree =>
      rw [if_neg hfree] at h
      cases h

/-- A record that is not taken out leaves the collection alone. -/
theorem remove_of_error (h : (s.remove id).1 = .error e) : (s.remove id).2 = s := by
  unfold remove at h ⊢
  split
  · next hheld =>
    rw [if_pos hheld] at h
    cases h
  · rfl

/-! ## The collection as a dictionary -/

/-- What a collection with distinct ids makes of each operation: when it refuses, what is held after
it otherwise, and that a refused change leaves the collection as it was. -/
structure IsOrderedDictionary (s : Store) : Prop where
  /-- No two records share an id. -/
  distinct : s.ids.Nodup
  /-- So every id that is held has one place in the list. -/
  place : ∀ id ∈ s.ids, ∃ before x after, s.Entry id before x after ∧
    ∀ before' x' after', s.Entry id before' x' after' →
      before' = before ∧ x' = x ∧ after' = after
  append_fails : ∀ r e, (s.append r).1 = .error e ↔ r.id ∈ s.ids ∧ e = .conflict r.id
  append_adds : ∀ r, r.id ∉ s.ids → s.append r = (.ok (), { records := s.records ++ [r] })
  append_keeps : ∀ r e, (s.append r).1 = .error e → (s.append r).2 = s
  replace_fails : ∀ id r e, (s.replace id r).1 = .error e ↔
    id ∉ s.ids ∧ e = .notFound id ∨
      id ∈ s.ids ∧ (r.id ≠ id ∧ ∃ y ∈ s.records, y.id = r.id) ∧ e = .conflict r.id
  replace_puts : ∀ id r before x after, s.Entry id before x after →
    ¬ (r.id ≠ id ∧ ∃ y ∈ s.records, y.id = r.id) →
      s.replace id r = (.ok (), { records := before ++ r :: after })
  replace_keeps : ∀ id r e, (s.replace id r).1 = .error e → (s.replace id r).2 = s
  remove_fails : ∀ id e, (s.remove id).1 = .error e ↔ id ∉ s.ids ∧ e = .notFound id
  remove_takes : ∀ id before x after, s.Entry id before x after →
    s.remove id = (.ok (), { records := before ++ after })
  remove_keeps : ∀ id e, (s.remove id).1 = .error e → (s.remove id).2 = s
  find_fails : ∀ id e, s.find id = .error e ↔ id ∉ s.ids ∧ e = .notFound id
  find_gives : ∀ id before x after, s.Entry id before x after → s.find id = .ok x

/-- All of it follows from the ids being distinct. -/
theorem isOrderedDictionary (hdistinct : s.ids.Nodup) : s.IsOrderedDictionary where
  distinct := hdistinct
  place := by
    intro id hid
    obtain ⟨before, x, after, hentry⟩ := exists_entry hid
    exact ⟨before, x, after, hentry, fun _ _ _ h => h.unique hentry hdistinct⟩
  append_fails _ _ := append_eq_error_iff
  append_adds _ h := append_of_fresh h
  append_keeps _ _ := append_of_error
  replace_fails id r e := by
    rw [replace_eq_error_iff hdistinct, ← mem_ids_iff]
  replace_puts id r before x after hentry hfree := by
    rw [← mem_ids_iff, not_and_or, not_not] at hfree
    exact replace_of_entry hdistinct hentry hfree
  replace_keeps _ _ _ := replace_of_error
  remove_fails id e := by
    by_cases h : id ∈ s.ids
    · obtain ⟨before, x, after, hentry⟩ := exists_entry h
      simp [remove_of_entry hdistinct hentry, h]
    · simp [remove_of_absent h, h, eq_comm]
  remove_takes _ _ _ _ hentry := remove_of_entry hdistinct hentry
  remove_keeps _ _ := remove_of_error
  find_fails id e := by
    by_cases h : id ∈ s.ids
    · obtain ⟨before, x, after, hentry⟩ := exists_entry h
      simp [find_of_entry hdistinct hentry, h]
    · simp [find_of_absent h, h, eq_comm]
  find_gives _ _ _ _ hentry := find_of_entry hdistinct hentry

/-! ## Operations -/

/-- One call on the collection. -/
inductive Operation where
  | append (r : Record)
  | replace (id : Int64) (r : Record)
  | remove (id : Int64)
  | find (id : Int64)
  | list
  | size

/-- What a call that does not fail gives back. -/
inductive Answer where
  | done
  | record (r : Record)
  | records (rs : List Record)
  | count (n : Nat)
  deriving DecidableEq

/-- The answer to a change, and the collection that it leaves behind. -/
def answered (change : Except StoreError Unit × Store) : Except StoreError Answer × Store :=
  (change.1.map (fun _ => .done), change.2)

/-- The answer to a call, and the collection after it. -/
def perform (s : Store) : Operation → Except StoreError Answer × Store
  | .append r => answered (s.append r)
  | .replace id r => answered (s.replace id r)
  | .remove id => answered (s.remove id)
  | .find id => ((s.find id).map .record, s)
  | .list => (.ok (.records s.toList), s)
  | .size => (.ok (.count s.size), s)

/-- The answers to calls made one after the other, and the collection after the last one. -/
def performAll (s : Store) : List Operation → List (Except StoreError Answer) × Store
  | [] => ([], s)
  | op :: ops =>
    let (answer, s) := s.perform op
    let (answers, s) := performAll s ops
    (answer :: answers, s)

theorem eq_error_of_answered {change : Except StoreError Unit × Store}
    (h : (answered change).1 = .error e) : change.1 = .error e := by
  obtain ⟨outcome, s'⟩ := change
  cases outcome with
  | ok => cases h
  | error e' =>
      cases h
      rfl

/-- A call that fails leaves the collection alone. -/
theorem perform_of_error {op : Operation} (h : (s.perform op).1 = .error e) :
    (s.perform op).2 = s := by
  cases op with
  | append r => exact append_of_error (eq_error_of_answered h)
  | replace id r => exact replace_of_error (eq_error_of_answered h)
  | remove id => exact remove_of_error (eq_error_of_answered h)
  | find id => rfl
  | list => rfl
  | size => rfl

end Store

/-! ## Dictionaries -/

/-- An ordered dictionary of records: the ids held, in the order in which they came, and what is
held under each of them. -/
structure Dictionary where
  keys : List Int64 := []
  value : Int64 → Option Record := fun _ => none

namespace Dictionary

open Store (Answer Operation)

/-- The records, in the order of their ids. -/
def entries (d : Dictionary) : List Record :=
  d.keys.filterMap d.value

/-- One more record, under its id. -/
def add (d : Dictionary) (r : Record) : Dictionary where
  keys := d.keys ++ [r.id]
  value := Function.update d.value r.id (some r)

/-- A record in the place of the one under an id, which gives way to the id of that record. -/
def put (d : Dictionary) (id : Int64) (r : Record) : Dictionary where
  keys := d.keys.map (fun k => if k = id then r.id else k)
  value := Function.update (Function.update d.value id none) r.id (some r)

/-- Nothing under an id. -/
def drop (d : Dictionary) (id : Int64) : Dictionary where
  keys := d.keys.filter (fun k => k ≠ id)
  value := Function.update d.value id none

@[simp] theorem value_add (d : Dictionary) (r : Record) :
    (d.add r).value = Function.update d.value r.id (some r) := rfl

@[simp] theorem value_put (d : Dictionary) (id : Int64) (r : Record) :
    (d.put id r).value = Function.update (Function.update d.value id none) r.id (some r) := rfl

@[simp] theorem value_drop (d : Dictionary) (id : Int64) :
    (d.drop id).value = Function.update d.value id none := rfl

/-- The answer to a call, and the dictionary after it. -/
def perform (d : Dictionary) : Operation → Except StoreError Answer × Dictionary
  | .append r =>
    if r.id ∈ d.keys then (.error (.conflict r.id), d) else (.ok .done, d.add r)
  | .replace id r =>
    if id ∉ d.keys then (.error (.notFound id), d)
    else if r.id ≠ id ∧ r.id ∈ d.keys then (.error (.conflict r.id), d)
    else (.ok .done, d.put id r)
  | .remove id =>
    if id ∈ d.keys then (.ok .done, d.drop id) else (.error (.notFound id), d)
  | .find id =>
    match d.value id with
    | some r => (.ok (.record r), d)
    | none => (.error (.notFound id), d)
  | .list => (.ok (.records d.entries), d)
  | .size => (.ok (.count d.keys.length), d)

/-- The answers to calls made one after the other, and the dictionary after the last one. -/
def performAll (d : Dictionary) : List Operation → List (Except StoreError Answer) × Dictionary
  | [] => ([], d)
  | op :: ops =>
    let (answer, d) := d.perform op
    let (answers, d) := performAll d ops
    (answer :: answers, d)

end Dictionary

/-! ## Simulation -/

namespace Store

variable {s : Store} {d : Dictionary} {r x : Record} {id : Int64} {before after : List Record}

/-- A collection with distinct ids stands for a dictionary: the same ids in the same order, and
under each of them its record. -/
structure Represents (s : Store) (d : Dictionary) : Prop where
  distinct : s.ids.Nodup
  keys : d.keys = s.ids
  held : ∀ x ∈ s.records, d.value x.id = some x
  absent : ∀ id, id ∉ s.ids → d.value id = none

namespace Represents

theorem empty : Represents {} {} where
  distinct := List.nodup_nil
  keys := rfl
  held _ h := absurd h List.not_mem_nil
  absent _ _ := rfl

theorem entries (h : s.Represents d) : d.entries = s.records := by
  have hvalue : ∀ xs : List Record, (∀ x ∈ xs, d.value x.id = some x) →
      (xs.map Record.id).filterMap d.value = xs := by
    intro xs hxs
    rw [List.filterMap_map]
    calc xs.filterMap (d.value ∘ Record.id) = xs.filterMap some := List.filterMap_congr hxs
      _ = xs := List.filterMap_some
  rw [Dictionary.entries, h.keys]
  exact hvalue s.records h.held

theorem value_of_entry (h : s.Represents d) (hentry : s.Entry id before x after) :
    d.value id = some x := by
  rw [← hentry.id]
  exact h.held x hentry.mem_records

/-- A fresh record at the end. -/
theorem push (h : s.Represents d) (hfresh : r.id ∉ s.ids) : (s.push r).Represents (d.add r) where
  distinct := nodup_ids_push h.distinct hfresh
  keys := by rw [ids_push, Dictionary.add, h.keys]
  held := by
    intro x hx
    rcases List.mem_append.mp hx with hx | hx
    · have hne : x.id ≠ r.id := fun heq => hfresh (heq ▸ mem_ids_iff.mpr ⟨x, hx, rfl⟩)
      rw [Dictionary.value_add, Function.update_of_ne hne]
      exact h.held x hx
    · obtain rfl := List.mem_singleton.mp hx
      exact Function.update_self ..
  absent := by
    intro id hid
    rw [ids_push, List.mem_append, List.mem_singleton, not_or] at hid
    rw [Dictionary.value_add, Function.update_of_ne hid.2]
    exact h.absent id hid.1

/-- What stands around the place of an id is held under other ids. -/
theorem value_around (h : s.Represents d) (hentry : s.Entry id before x after) {y : Record}
    (hy : y ∈ before ∨ y ∈ after) : y.id ≠ id ∧ d.value y.id = some y := by
  have hmem : y ∈ s.records := by
    rw [hentry.records, List.mem_append, List.mem_cons]
    exact hy.imp_right Or.inr
  refine ⟨?_, h.held y hmem⟩
  exact hy.elim (hentry.ne_of_mem_before h.distinct) (hentry.ne_of_mem_after h.distinct)

/-- A record in the place of another one, under the same id or a fresh one. -/
theorem put (h : s.Represents d) (hentry : s.Entry id before x after)
    (hid : r.id = id ∨ r.id ∉ s.ids) :
    Represents { records := before ++ r :: after } (d.put id r) := by
  obtain ⟨hbefore, hafter⟩ := hentry.not_mem_around h.distinct
  have hids : Store.ids { records := before ++ r :: after } =
      before.map Record.id ++ r.id :: after.map Record.id := by
    rw [Store.ids, List.map_append, List.map_cons]
  -- the new id is nowhere around the place
  have hfresh : r.id ∉ before.map Record.id ++ after.map Record.id := by
    rcases hid with heq | hfresh
    · rw [heq, List.mem_append, not_or]
      exact ⟨hbefore, hafter⟩
    · rw [hentry.ids_eq] at hfresh
      simp only [List.mem_append, List.mem_cons, not_or] at hfresh ⊢
      exact ⟨hfresh.1, hfresh.2.2⟩
  have hkept : ∀ ks : List Int64, id ∉ ks →
      ks.map (fun k => if k = id then r.id else k) = ks := by
    intro ks hks
    refine (List.map_congr_left fun k hk => if_neg ?_).trans (List.map_id ks)
    rintro rfl
    exact hks hk
  refine ⟨?_, ?_, ?_, ?_⟩
  · have hdistinct := h.distinct
    rw [hentry.ids_eq, List.nodup_middle, List.nodup_cons] at hdistinct
    rw [hids, List.nodup_middle, List.nodup_cons]
    exact ⟨hfresh, hdistinct.2⟩
  · rw [hids, Dictionary.put, h.keys, hentry.ids_eq, List.map_append, List.map_cons, if_pos rfl,
      hkept _ hbefore, hkept _ hafter]
  · intro y hy
    rw [List.mem_append, List.mem_cons, or_left_comm] at hy
    rcases hy with rfl | hy
    · exact Function.update_self ..
    · obtain ⟨hne, hvalue⟩ := h.value_around hentry hy
      have hne' : y.id ≠ r.id := by
        intro heq
        refine hfresh (heq ▸ ?_)
        rw [← List.map_append]
        exact List.mem_map_of_mem (List.mem_append.mpr hy)
      rw [Dictionary.value_put, Function.update_of_ne hne', Function.update_of_ne hne]
      exact hvalue
  · intro i hi
    rw [hids, List.mem_append, List.mem_cons, not_or, not_or] at hi
    obtain ⟨hi, hr, hi'⟩ := hi
    rw [Dictionary.value_put, Function.update_of_ne hr]
    by_cases heq : i = id
    · rw [heq, Function.update_self]
    · rw [Function.update_of_ne heq]
      refine h.absent i ?_
      rw [hentry.ids_eq, List.mem_append, List.mem_cons, not_or, not_or]
      exact ⟨hi, heq, hi'⟩

/-- A record taken out. -/
theorem drop (h : s.Represents d) (hentry : s.Entry id before x after) :
    Represents { records := before ++ after } (d.drop id) := by
  obtain ⟨hbefore, hafter⟩ := hentry.not_mem_around h.distinct
  have hids : Store.ids { records := before ++ after } =
      before.map Record.id ++ after.map Record.id := by
    rw [Store.ids, List.map_append]
  have hkept : ∀ ks : List Int64, id ∉ ks → ks.filter (fun k => decide (k ≠ id)) = ks := by
    intro ks hks
    refine List.filter_eq_self.mpr fun k hk => decide_eq_true ?_
    rintro rfl
    exact hks hk
  refine ⟨?_, ?_, ?_, ?_⟩
  · have hdistinct := h.distinct
    rw [hentry.ids_eq, List.nodup_middle, List.nodup_cons] at hdistinct
    rw [hids]
    exact hdistinct.2
  · rw [hids, Dictionary.drop, h.keys, hentry.ids_eq, List.filter_append,
      List.filter_cons_of_neg (by simp), hkept _ hbefore, hkept _ hafter]
  · intro y hy
    obtain ⟨hne, hvalue⟩ := h.value_around hentry (List.mem_append.mp hy)
    rw [Dictionary.value_drop, Function.update_of_ne hne]
    exact hvalue
  · intro i hi
    rw [hids, List.mem_append, not_or] at hi
    rw [Dictionary.value_drop]
    by_cases heq : i = id
    · rw [heq, Function.update_self]
    · rw [Function.update_of_ne heq]
      refine h.absent i ?_
      rw [hentry.ids_eq, List.mem_append, List.mem_cons, not_or, not_or]
      exact ⟨hi.1, heq, hi.2⟩

/-- One call: the same answer, and the two still stand for one another. -/
theorem perform (h : s.Represents d) (op : Operation) :
    (s.perform op).1 = (d.perform op).1 ∧ (s.perform op).2.Represents (d.perform op).2 := by
  cases op with
  | append r =>
      by_cases hid : r.id ∈ s.ids
      · have hd : r.id ∈ d.keys := h.keys ▸ hid
        rw [Store.perform, append_of_taken hid, Dictionary.perform, if_pos hd]
        exact ⟨rfl, h⟩
      · have hd : r.id ∉ d.keys := h.keys ▸ hid
        rw [Store.perform, append_of_fresh hid, Dictionary.perform, if_neg hd]
        exact ⟨rfl, h.push hid⟩
  | replace id r =>
      rw [Store.perform, Dictionary.perform, h.keys]
      by_cases hid : id ∈ s.ids
      · rw [if_neg (not_not_intro hid)]
        by_cases htaken : r.id ≠ id ∧ r.id ∈ s.ids
        · rw [replace_of_taken hid htaken.1 htaken.2, if_pos htaken]
          exact ⟨rfl, h⟩
        · obtain ⟨before, x, after, hentry⟩ := exists_entry hid
          have hfree : r.id = id ∨ r.id ∉ s.ids := by
            rw [not_and_or, not_not] at htaken
            exact htaken
          rw [replace_of_entry h.distinct hentry hfree, if_neg htaken]
          exact ⟨rfl, h.put hentry hfree⟩
      · rw [replace_of_absent hid, if_pos hid]
        exact ⟨rfl, h⟩
  | remove id =>
      rw [Store.perform, Dictionary.perform, h.keys]
      by_cases hid : id ∈ s.ids
      · obtain ⟨before, x, after, hentry⟩ := exists_entry hid
        rw [remove_of_entry h.distinct hentry, if_pos hid]
        exact ⟨rfl, h.drop hentry⟩
      · rw [remove_of_absent hid, if_neg hid]
        exact ⟨rfl, h⟩
  | find id =>
      rw [Store.perform, Dictionary.perform]
      by_cases hid : id ∈ s.ids
      · obtain ⟨before, x, after, hentry⟩ := exists_entry hid
        rw [find_of_entry h.distinct hentry, h.value_of_entry hentry]
        exact ⟨rfl, h⟩
      · rw [find_of_absent hid, h.absent id hid]
        exact ⟨rfl, h⟩
  | list =>
      rw [Store.perform, Dictionary.perform, h.entries]
      exact ⟨rfl, h⟩
  | size =>
      have hsize : s.size = d.keys.length := by rw [h.keys, ids, List.length_map, size]
      rw [Store.perform, Dictionary.perform, hsize]
      exact ⟨rfl, h⟩

/-- Calls made one after the other, by the first of them. -/
theorem performAll (h : s.Represents d) (ops : List Operation) :
    (s.performAll ops).1 = (d.performAll ops).1 ∧
      (s.performAll ops).2.Represents (d.performAll ops).2 := by
  induction ops generalizing s d with
  | nil => exact ⟨rfl, h⟩
  | cons op ops ih =>
      obtain ⟨hanswer, hnext⟩ := h.perform op
      obtain ⟨hanswers, hlast⟩ := ih hnext
      exact ⟨congrArg₂ List.cons hanswer hanswers, hlast⟩

end Represents

/-- Whatever is called on a collection that began empty, the answers are those of an ordered
dictionary and the records held are its entries; no id is held twice; each operation does to the
list what it does to the dictionary; and a call that fails leaves the list alone. -/
theorem refines_ordered_dictionary (ops : List Operation) :
    (Store.performAll {} ops).1 = (Dictionary.performAll {} ops).1 ∧
      (Store.performAll {} ops).2.records = (Dictionary.performAll {} ops).2.entries ∧
      (Store.performAll {} ops).2.IsOrderedDictionary ∧
      ∀ op e, ((Store.performAll {} ops).2.perform op).1 = .error e →
        ((Store.performAll {} ops).2.perform op).2 = (Store.performAll {} ops).2 := by
  obtain ⟨hanswers, hrepresents⟩ := Represents.empty.performAll ops
  exact ⟨hanswers, hrepresents.entries.symm, isOrderedDictionary hrepresents.distinct,
    fun _ _ herror => perform_of_error herror⟩

/-- A record moved to a new id keeps its place, and its old id is free again. -/
example :
    Store.performAll {}
        [.append { id := 1 }, .append { id := 2 }, .replace 1 { id := 3 }, .replace 3 { id := 2 },
          .append { id := 1 }, .remove 2] =
      ([.ok .done, .ok .done, .ok .done, .error (.conflict 2), .ok .done, .ok .done],
        { records := [{ id := 3 }, { id := 1 }] }) := by
  rfl

end Store

end VideoCatalog
