import VideoCatalog.Proofs.Import.Submission

/-!
# Imports that run side by side

An import takes two steps. The first one accepts the text and does not look at the collection; the
second one appends the record, under the lock of the collection and so in one piece. Between the two
any number of steps of other imports may go on. A *schedule* names the import whose turn it is,
again and again; every interleaving of the steps of any imports is a schedule. That one client does
not begin an import before its last one is over only leaves fewer of them.

`Imports.advance` is one turn, and `Imports.Turn` says all that a turn can do. `Imports.Consistent`
is what every turn keeps: the records behind the initial ones are those of the imports logged so
far, in the order in which they were appended, and each import stands where its text and the log put
it.
`Imports.Consistent.run` is the induction over the schedule.

That the id is looked up in the second step is what makes this work: of two imports of one id that
have both been accepted, the one that appends later finds it taken.
-/

namespace VideoCatalog

open Store (Submission)

variable {ι G : Type} [DecidableEq ι]

/-- How far an import has come. -/
inductive Stage where
  /-- Nothing has been done yet. -/
  | pending
  /-- The text has been accepted; the record is not appended yet. -/
  | accepted (r : Record)
  /-- It is over. -/
  | finished (outcome : Except ImportError Receipt)

/-- The turns an import has had at least, when it stands there. -/
def Stage.turns : Stage → Nat
  | .pending => 0
  | .accepted _ => 1
  | .finished _ => 2

/-- The collection, and how far each import has come. -/
structure Imports (ι : Type) where
  store : Store
  stage : ι → Stage

namespace Imports

/-- No import has begun. -/
def start (s : Store) : Imports ι where
  store := s
  stage _ := .pending

/-- One import at another stage. -/
def moveTo (t : Imports ι) (i : ι) (stage : Stage) : Imports ι :=
  { t with stage := Function.update t.stage i stage }

/-- The next step of one import. -/
def advance (b : Backend G) (g : GrammarSet G) (jobs : ι → Submission) (t : Imports ι) (i : ι) :
    Imports ι :=
  match t.stage i with
  | .pending =>
    match g.accept b (jobs i).choice (jobs i).text with
    | .ok r => t.moveTo i (.accepted r)
    | .error e => t.moveTo i (.finished (.error e))
  | .accepted r =>
    match t.store.append r with
    | (.ok (), store) =>
      { t with store := store }.moveTo i
        (.finished (.ok { id := r.id, grammar := (jobs i).choice }))
    | (.error e, store) =>
      { t with store := store }.moveTo i (.finished (.error (.ofStore e)))
  | .finished _ => t

/-- The import and its record, if its next step appends one. -/
def appended? (t : Imports ι) (i : ι) : Option (ι × Record) :=
  match t.stage i with
  | .accepted r => if t.store.contains r.id then none else some (i, r)
  | _ => none

/-- Where the imports stand after a schedule. -/
def run (b : Backend G) (g : GrammarSet G) (jobs : ι → Submission) (t : Imports ι) :
    List ι → Imports ι
  | [] => t
  | i :: schedule => run b g jobs (t.advance b g jobs i) schedule

/-- The records appended in a schedule, in the order of the steps that append them, each with its
import. -/
def appended (b : Backend G) (g : GrammarSet G) (jobs : ι → Submission) (t : Imports ι) :
    List ι → List (ι × Record)
  | [] => []
  | i :: schedule =>
    (t.appended? i).toList ++ appended b g jobs (t.advance b g jobs i) schedule

/-- The import has succeeded with a record of this id. -/
def Succeeds (jobs : ι → Submission) (t : Imports ι) (i : ι) (id : Int64) : Prop :=
  t.stage i = .finished (.ok { id := id, grammar := (jobs i).choice })

section Theory

variable {b : Backend G} {g : GrammarSet G} {jobs : ι → Submission} {t : Imports ι} {i j : ι}
  {r : Record} {e : ImportError} {receipt : Receipt} {s₀ : Store} {log : List (ι × Record)}
  {stage : Stage}

@[simp] theorem store_moveTo : (t.moveTo i stage).store = t.store := rfl

@[simp] theorem stage_moveTo_self : (t.moveTo i stage).stage i = stage :=
  Function.update_self ..

theorem stage_moveTo_of_ne (h : j ≠ i) : (t.moveTo i stage).stage j = t.stage j :=
  Function.update_of_ne h ..

/-! ## One turn -/

/-- What one turn of an import can do, and the record that it appends if it does. -/
inductive Turn (b : Backend G) (g : GrammarSet G) (jobs : ι → Submission) (t : Imports ι) (i : ι) :
    Option (ι × Record) → Imports ι → Prop
  | accepts {r : Record} : t.stage i = .pending →
      g.accept b (jobs i).choice (jobs i).text = .ok r →
      Turn b g jobs t i none (t.moveTo i (.accepted r))
  | refuses {e : ImportError} : t.stage i = .pending →
      g.accept b (jobs i).choice (jobs i).text = .error e →
      Turn b g jobs t i none (t.moveTo i (.finished (.error e)))
  | appends {r : Record} : t.stage i = .accepted r → r.id ∉ t.store.ids →
      Turn b g jobs t i (some (i, r))
        ({ t with store := t.store.push r }.moveTo i
          (.finished (.ok { id := r.id, grammar := (jobs i).choice })))
  | clashes {r : Record} : t.stage i = .accepted r → r.id ∈ t.store.ids →
      Turn b g jobs t i none (t.moveTo i (.finished (.error (.conflict r.id))))
  | rests {outcome : Except ImportError Receipt} : t.stage i = .finished outcome →
      Turn b g jobs t i none t

theorem turn_advance (b : Backend G) (g : GrammarSet G) (jobs : ι → Submission) (t : Imports ι)
    (i : ι) : Turn b g jobs t i (t.appended? i) (t.advance b g jobs i) := by
  unfold advance appended?
  cases hstage : t.stage i with
  | pending =>
      cases haccept : g.accept b (jobs i).choice (jobs i).text with
      | ok r => exact .accepts hstage haccept
      | error e => exact .refuses hstage haccept
  | accepted r =>
      by_cases hid : r.id ∈ t.store.ids
      · simp only [Store.append_of_taken hid, Store.contains_eq_true_iff.mpr hid, if_true]
        exact .clashes hstage hid
      · simp only [Store.append_of_fresh hid, mt Store.contains_eq_true_iff.mp hid]
        exact .appends hstage hid
  | finished outcome => exact .rests hstage

/-- The other imports stay where they are. -/
theorem Turn.stage_of_ne {added : Option (ι × Record)} {t' : Imports ι}
    (h : Turn b g jobs t i added t') (hne : j ≠ i) : t'.stage j = t.stage j := by
  cases h with
  | accepts | refuses | appends | clashes => exact stage_moveTo_of_ne hne
  | rests => rfl

/-- An import whose turn it is comes nearer to its end. -/
theorem Turn.turns_le {added : Option (ι × Record)} {t' : Imports ι}
    (h : Turn b g jobs t i added t') : min 2 ((t.stage i).turns + 1) ≤ (t'.stage i).turns := by
  cases h with
  | accepts hstage _ =>
      rw [stage_moveTo_self, hstage]
      exact Nat.min_le_right _ _
  | refuses | appends | clashes =>
      rw [stage_moveTo_self]
      exact Nat.min_le_left _ _
  | rests hstage =>
      rw [hstage]
      exact Nat.min_le_left _ _

/-! ## What every turn keeps -/

/-- Where an import stands, given the imports logged so far and the collection: it is logged exactly
if it has succeeded, and it fails for its text or because its id is taken. -/
inductive StandsAt (b : Backend G) (g : GrammarSet G) (jobs : ι → Submission)
    (log : List (ι × Record)) (s : Store) (i : ι) : Stage → Prop
  | pending : i ∉ log.map Prod.fst → StandsAt b g jobs log s i .pending
  | accepted {r : Record} : i ∉ log.map Prod.fst →
      g.accept b (jobs i).choice (jobs i).text = .ok r →
      StandsAt b g jobs log s i (.accepted r)
  | refused {e : ImportError} : i ∉ log.map Prod.fst →
      g.accept b (jobs i).choice (jobs i).text = .error e →
      StandsAt b g jobs log s i (.finished (.error e))
  | clashed {r : Record} : i ∉ log.map Prod.fst →
      g.accept b (jobs i).choice (jobs i).text = .ok r → r.id ∈ s.ids →
      StandsAt b g jobs log s i (.finished (.error (.conflict r.id)))
  | succeeded {r : Record} : (i, r) ∈ log →
      g.accept b (jobs i).choice (jobs i).text = .ok r →
      StandsAt b g jobs log s i (.finished (.ok { id := r.id, grammar := (jobs i).choice }))

omit [DecidableEq ι] in
/-- An import does not stand elsewhere when another one is logged. -/
theorem StandsAt.push {s : Store} (h : StandsAt b g jobs log s i stage) (hne : i ≠ j) :
    StandsAt b g jobs (log ++ [(j, r)]) (s.push r) i stage := by
  have hnot : i ∉ log.map Prod.fst → i ∉ (log ++ [(j, r)]).map Prod.fst := by
    intro hlog
    rw [List.map_append, List.mem_append, not_or]
    exact ⟨hlog, by simpa using hne⟩
  cases h with
  | pending hlog => exact .pending (hnot hlog)
  | accepted hlog haccept => exact .accepted (hnot hlog) haccept
  | refused hlog haccept => exact .refused (hnot hlog) haccept
  | clashed hlog haccept hid =>
      refine .clashed (hnot hlog) haccept ?_
      rw [Store.ids_push]
      exact List.mem_append_left _ hid
  | succeeded hlog haccept => exact .succeeded (List.mem_append_left _ hlog) haccept

/-- No id is held twice, the records behind the initial ones are those logged, no import is logged
twice, and each import stands where its text and the log put it. -/
structure Consistent (b : Backend G) (g : GrammarSet G) (jobs : ι → Submission) (s₀ : Store)
    (log : List (ι × Record)) (t : Imports ι) : Prop where
  distinct : t.store.ids.Nodup
  records : t.store.records = s₀.records ++ log.map Prod.snd
  once : (log.map Prod.fst).Nodup
  stands : ∀ i, StandsAt b g jobs log t.store i (t.stage i)

namespace Consistent

omit [DecidableEq ι] in
theorem start (hdistinct : s₀.ids.Nodup) : Consistent b g jobs s₀ [] (start s₀) where
  distinct := hdistinct
  records := (List.append_nil _).symm
  once := List.nodup_nil
  stands _ := .pending List.not_mem_nil

/-- An import that only moves itself keeps everything if it moves to where it belongs. -/
theorem moveTo (h : Consistent b g jobs s₀ log t)
    (hi : StandsAt b g jobs log t.store i stage) :
    Consistent b g jobs s₀ log (t.moveTo i stage) where
  distinct := h.distinct
  records := h.records
  once := h.once
  stands := by
    intro j
    by_cases hj : j = i
    · subst hj
      rw [stage_moveTo_self]
      exact hi
    · rw [stage_moveTo_of_ne hj]
      exact h.stands j

/-- An import that appends its record is logged. -/
theorem push (h : Consistent b g jobs s₀ log t) (hstage : t.stage i = .accepted r)
    (hfresh : r.id ∉ t.store.ids) :
    Consistent b g jobs s₀ (log ++ [(i, r)])
      ({ t with store := t.store.push r }.moveTo i
        (.finished (.ok { id := r.id, grammar := (jobs i).choice }))) := by
  have hi := h.stands i
  rw [hstage] at hi
  cases hi with
  | accepted hlog haccept =>
      refine ⟨Store.nodup_ids_push h.distinct hfresh, ?_, ?_, ?_⟩
      · rw [store_moveTo, Store.push, h.records, List.map_append, List.append_assoc]
        rfl
      · rw [List.map_append]
        exact List.nodup_append_comm.mp (List.nodup_cons.mpr ⟨hlog, h.once⟩)
      · intro j
        by_cases hj : j = i
        · subst hj
          rw [stage_moveTo_self]
          exact .succeeded (List.mem_append_right _ (List.mem_singleton.mpr rfl)) haccept
        · rw [stage_moveTo_of_ne hj]
          exact (h.stands j).push hj

/-- One turn logs what it appends. -/
theorem turn {added : Option (ι × Record)} {t' : Imports ι} (h : Consistent b g jobs s₀ log t)
    (hturn : Turn b g jobs t i added t') :
    Consistent b g jobs s₀ (log ++ added.toList) t' := by
  have hi := h.stands i
  cases hturn with
  | accepts hstage haccept =>
      rw [hstage] at hi
      cases hi with
      | pending hlog => simpa using h.moveTo (.accepted hlog haccept)
  | refuses hstage haccept =>
      rw [hstage] at hi
      cases hi with
      | pending hlog => simpa using h.moveTo (.refused hlog haccept)
  | appends hstage hfresh => exact h.push hstage hfresh
  | clashes hstage htaken =>
      rw [hstage] at hi
      cases hi with
      | accepted hlog haccept => simpa using h.moveTo (.clashed hlog haccept htaken)
  | rests => simpa using h

/-- A schedule, by its first turn. -/
theorem run (h : Consistent b g jobs s₀ log t) (schedule : List ι) :
    Consistent b g jobs s₀ (log ++ t.appended b g jobs schedule) (t.run b g jobs schedule) := by
  induction schedule generalizing log t with
  | nil =>
      rw [appended, List.append_nil]
      exact h
  | cons i schedule ih =>
      rw [appended, ← List.append_assoc]
      exact ih (h.turn (turn_advance b g jobs t i))

/-! ## What the log says of the imports -/

omit [DecidableEq ι]

theorem ids (h : Consistent b g jobs s₀ log t) :
    t.store.ids = s₀.ids ++ log.map (fun entry => entry.2.id) := by
  rw [Store.ids, h.records, List.map_append, List.map_map]
  rfl

/-- An import has succeeded exactly if it is logged. -/
theorem succeeds_iff (h : Consistent b g jobs s₀ log t) {id : Int64} :
    t.Succeeds jobs i id ↔ ∃ r, (i, r) ∈ log ∧ r.id = id := by
  have hi := h.stands i
  unfold Succeeds
  constructor
  · intro hstage
    rw [hstage] at hi
    cases hi with
    | @succeeded r hlog _ => exact ⟨r, hlog, rfl⟩
  · rintro ⟨r, hlog, rfl⟩
    have hmem : i ∈ log.map Prod.fst := List.mem_map_of_mem hlog
    generalize t.stage i = stage at hi ⊢
    cases hi with
    | pending hnot => exact absurd hmem hnot
    | accepted hnot _ => exact absurd hmem hnot
    | refused hnot _ => exact absurd hmem hnot
    | clashed hnot _ _ => exact absurd hmem hnot
    | @succeeded r' hlog' _ =>
        have hsame := List.inj_on_of_nodup_map h.once hlog hlog' rfl
        obtain rfl : r = r' := (Prod.mk.inj hsame).2
        rfl

/-- What is logged was accepted. -/
theorem accept_of_mem (h : Consistent b g jobs s₀ log t) (hlog : (i, r) ∈ log) :
    g.accept b (jobs i).choice (jobs i).text = .ok r := by
  have hstage : t.Succeeds jobs i r.id := h.succeeds_iff.mpr ⟨r, hlog, rfl⟩
  have hi := h.stands i
  rw [hstage] at hi
  generalize hreceipt : ({ id := r.id, grammar := (jobs i).choice } : Receipt) = receipt at hi
  cases hi with
  | @succeeded r' hlog' haccept =>
      have hsame := List.inj_on_of_nodup_map h.once hlog hlog' rfl
      obtain rfl : r = r' := (Prod.mk.inj hsame).2
      exact haccept

/-- Of the imports of one id, one is logged at most, and none if the id was held before. -/
theorem unique_of_mem (h : Consistent b g jobs s₀ log t) {r' : Record} (hi : (i, r) ∈ log)
    (hj : (j, r') ∈ log) (hid : r.id = r'.id) : i = j := by
  have hdistinct := h.distinct
  rw [h.ids] at hdistinct
  have hsame := List.inj_on_of_nodup_map (List.nodup_append.mp hdistinct).2.1 hi hj hid
  exact (Prod.mk.inj hsame).1

theorem not_mem_of_mem (h : Consistent b g jobs s₀ log t) (hlog : (i, r) ∈ log) :
    r.id ∉ s₀.ids := by
  have hdistinct := h.distinct
  rw [h.ids] at hdistinct
  intro hheld
  exact (List.nodup_append.mp hdistinct).2.2 _ hheld _ (List.mem_map_of_mem hlog) rfl

/-- How an accepted import can end. -/
theorem outcome_of_accept (h : Consistent b g jobs s₀ log t)
    (haccept : g.accept b (jobs i).choice (jobs i).text = .ok r)
    {outcome : Except ImportError Receipt} (hstage : t.stage i = .finished outcome) :
    outcome = .ok { id := r.id, grammar := (jobs i).choice } ∧ (i, r) ∈ log ∨
      outcome = .error (.conflict r.id) ∧ r.id ∈ t.store.ids := by
  have hi := h.stands i
  rw [hstage] at hi
  cases hi with
  | refused _ hrefused => exact absurd (haccept.symm.trans hrefused) (by simp)
  | @clashed r' _ haccept' htaken =>
      obtain rfl : r = r' := Except.ok.inj (haccept.symm.trans haccept')
      exact .inr ⟨rfl, htaken⟩
  | @succeeded r' hlog haccept' =>
      obtain rfl : r = r' := Except.ok.inj (haccept.symm.trans haccept')
      exact .inl ⟨rfl, hlog⟩

/-- How a refused import ends. -/
theorem outcome_of_refuse (h : Consistent b g jobs s₀ log t)
    (hrefuse : g.accept b (jobs i).choice (jobs i).text = .error e)
    {outcome : Except ImportError Receipt} (hstage : t.stage i = .finished outcome) :
    outcome = .error e := by
  have hi := h.stands i
  rw [hstage] at hi
  cases hi with
  | refused _ hrefuse' => rw [Except.error.inj (hrefuse.symm.trans hrefuse')]
  | clashed _ haccept _ => exact absurd (hrefuse.symm.trans haccept) (by simp)
  | succeeded _ haccept => exact absurd (hrefuse.symm.trans haccept) (by simp)

end Consistent

/-! ## Whole schedules -/

/-- An import that has had two turns is over. -/
theorem turns_run (b : Backend G) (g : GrammarSet G) (jobs : ι → Submission) (t : Imports ι) (i : ι)
    (schedule : List ι) :
    min 2 ((t.stage i).turns + schedule.count i) ≤
      ((t.run b g jobs schedule).stage i).turns := by
  induction schedule generalizing t with
  | nil => exact Nat.min_le_right _ _
  | cons j schedule ih =>
      have hturn := turn_advance b g jobs t j
      refine Nat.le_trans ?_ (ih (t.advance b g jobs j))
      by_cases hj : i = j
      · subst hj
        have hstep := hturn.turns_le
        rw [List.count_cons_self]
        omega
      · refine Nat.le_of_eq ?_
        rw [List.count_cons_of_ne (Ne.symm hj), hturn.stage_of_ne hj]

theorem exists_outcome (schedule : List ι) (hturns : 2 ≤ schedule.count i) :
    ∃ outcome, ((start s₀).run b g jobs schedule).stage i = .finished outcome := by
  have hrun := turns_run b g jobs (start s₀) i schedule
  generalize ((start s₀).run b g jobs schedule).stage i = stage at hrun ⊢
  cases stage with
  | finished outcome => exact ⟨outcome, rfl⟩
  | pending => exact absurd hrun (by simp [start, Stage.turns]; omega)
  | accepted r => exact absurd hrun (by simp [start, Stage.turns]; omega)

/-- Whatever the interleaving of any imports on a collection with distinct ids: the imports of one
id that succeed are one at most, and none if the id was held before; every import that has had its
two turns is over, with the refusal of its text, or, if the text was accepted, with success or with
a conflict, and some import of that id has succeeded if the id was not held before; and the
collection is the initial one, followed by the records of the imports that succeeded, in the order
in which they were appended. -/
theorem interleaved_imports_keep_records (b : Backend G) (g : GrammarSet G) (jobs : ι → Submission)
    (s₀ : Store) (hdistinct : s₀.ids.Nodup) (schedule : List ι) :
    let t := (start s₀).run b g jobs schedule
    (∀ id i j, t.Succeeds jobs i id → t.Succeeds jobs j id → i = j) ∧
    (∀ id i, t.Succeeds jobs i id → id ∉ s₀.ids) ∧
    (∀ i r, g.accept b (jobs i).choice (jobs i).text = .ok r → 2 ≤ schedule.count i →
      (r.id ∉ s₀.ids → ∃! j, t.Succeeds jobs j r.id) ∧
        (¬ t.Succeeds jobs i r.id → t.stage i = .finished (.error (.conflict r.id)))) ∧
    (∀ i e, g.accept b (jobs i).choice (jobs i).text = .error e → 2 ≤ schedule.count i →
      t.stage i = .finished (.error e)) ∧
    t.store.records =
      s₀.records ++ ((start s₀).appended b g jobs schedule).map Prod.snd ∧
    (((start s₀).appended b g jobs schedule).map Prod.fst).Nodup ∧
    (∀ i r, (i, r) ∈ (start s₀).appended b g jobs schedule ↔
      t.Succeeds jobs i r.id ∧ g.accept b (jobs i).choice (jobs i).text = .ok r) := by
  intro t
  have h : Consistent b g jobs s₀ ((start s₀).appended b g jobs schedule) t := by
    simpa using (Consistent.start hdistinct).run schedule
  have hover : ∀ i, 2 ≤ schedule.count i → ∃ outcome, t.stage i = .finished outcome :=
    fun i hturns => exists_outcome schedule hturns
  refine ⟨?_, ?_, ?_, ?_, h.records, h.once, ?_⟩
  · intro id i j hi hj
    obtain ⟨r, hr, rfl⟩ := h.succeeds_iff.mp hi
    obtain ⟨r', hr', hid⟩ := h.succeeds_iff.mp hj
    exact h.unique_of_mem hr hr' hid.symm
  · intro id i hi
    obtain ⟨r, hr, rfl⟩ := h.succeeds_iff.mp hi
    exact h.not_mem_of_mem hr
  · intro i r haccept hturns
    obtain ⟨outcome, hstage⟩ := hover i hturns
    have hend := h.outcome_of_accept haccept hstage
    constructor
    · intro hfresh
      have hwinner : ∃ j r', (j, r') ∈ (start s₀).appended b g jobs schedule ∧ r'.id = r.id := by
        rcases hend with ⟨-, hlog⟩ | ⟨-, htaken⟩
        · exact ⟨i, r, hlog, rfl⟩
        · rw [h.ids, List.mem_append] at htaken
          obtain ⟨⟨j, r'⟩, hlog, hid⟩ := List.mem_map.mp (htaken.resolve_left hfresh)
          exact ⟨j, r', hlog, hid⟩
      obtain ⟨j, r', hlog, hid⟩ := hwinner
      refine ⟨j, h.succeeds_iff.mpr ⟨r', hlog, hid⟩, ?_⟩
      intro k hk
      obtain ⟨r'', hlog', hid'⟩ := h.succeeds_iff.mp hk
      exact h.unique_of_mem hlog' hlog (hid'.trans hid.symm)
    · intro hfails
      rcases hend with ⟨rfl, -⟩ | ⟨rfl, -⟩
      · exact absurd hstage hfails
      · exact hstage
  · intro i e hrefuse hturns
    obtain ⟨outcome, hstage⟩ := hover i hturns
    rw [hstage, h.outcome_of_refuse hrefuse hstage]
  · intro i r
    constructor
    · intro hlog
      exact ⟨h.succeeds_iff.mpr ⟨r, hlog, rfl⟩, h.accept_of_mem hlog⟩
    · rintro ⟨hstage, haccept⟩
      rcases h.outcome_of_accept haccept hstage with ⟨-, hlog⟩ | ⟨hfailed, -⟩
      · exact hlog
      · cases hfailed

end Theory

namespace Race

open Store.Twice (backend grammars holds_item stored)

/-- Two imports of one text, and a third one under the pattern, which rejects it. -/
def jobs : Fin 3 → Submission
  | 0 => ⟨.schema, "item"⟩
  | 1 => ⟨.schema, "item"⟩
  | 2 => ⟨.pattern, "item"⟩

/-- Both texts are accepted before either record is appended. -/
def schedule : List (Fin 3) :=
  [0, 1, 2, 1, 0, 2]

/-- The import that began later appends first and succeeds; the other one finds the id taken. -/
theorem interleaved_imports_keep_records_race :
    ({} : Store).ids.Nodup ∧
      ((start {}).run backend grammars jobs schedule).store.records = [stored] ∧
      ((start {}).run backend grammars jobs schedule).stage 0 =
        .finished (.error (.conflict 7)) ∧
      ((start {}).run backend grammars jobs schedule).stage 1 =
        .finished (.ok { id := 7, grammar := .schema }) ∧
      ((start {}).run backend grammars jobs schedule).stage 2 =
        .finished (.error (.invalid ["pattern: Element item failed to validate"])) := by
  have hdistinct : ({} : Store).ids.Nodup := List.nodup_nil
  obtain ⟨hunique, -, haccepted, hrefused, hrecords, -, hlog⟩ :=
    interleaved_imports_keep_records backend grammars jobs {} hdistinct schedule
  have haccept : grammars.accept backend .schema "item" = .ok stored := by decide
  have happended : (start {}).appended backend grammars jobs schedule = [(1, stored)] := rfl
  have hwins := ((hlog 1 stored).mp (by rw [happended]; decide)).1
  have hloses := (haccepted 0 stored haccept (by decide)).2 fun hwins' =>
    absurd (hunique 7 0 1 hwins' hwins) (by decide)
  rw [happended] at hrecords
  exact ⟨hdistinct, hrecords, hloses, hwins, hrefused 2 _ (by decide) (by decide)⟩

end Race

end Imports

end VideoCatalog
