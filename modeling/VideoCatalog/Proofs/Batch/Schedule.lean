import VideoCatalog.Proofs.Batch.Tasks
import VideoCatalog.Proofs.Validator.Check

/-!
# A batch does not depend on its schedule

Without stopping, the results of a batch are those that the files have alone, in the order of the
files, whatever the order of the turns. This is read off what every turn keeps
(`Orderly.results_eq`).

With stopping, results depend on the schedule, as the flag may go up while other files are being
checked. With one permit, granted in the order of the files, the tasks follow one another: what has
been done and what is still owed always make up the results that checking one file after the other
gives (`Sequential`), so these are the results when all tasks are over. The flag has to be up before
the permit is given back for this: `settle` comes before `release`.
-/

namespace VideoCatalog.Batch

section Theory

variable {check skip : RawText → FileResult} {failFast : Bool} {path : RawText}
  {paths : List RawText} {permits : Nat} {s s' : Shared} {phase phase' : Phase} {p p' : Pool}
  {results : List FileResult}

/-! ## One permit, in the order of the files -/

/-- What checking one file after the other still gives from the file at hand on, when its task has
come so far. -/
def owed (check skip : RawText → FileResult) (failFast stopped : Bool) (path : RawText)
    (rest : List RawText) : Phase → List FileResult
  | .waiting => checkAll check skip failFast (failFast && stopped) (path :: rest)
  | .admitted => checkAll check skip failFast (failFast && stopped) (path :: rest)
  | .checking =>
    check path ::
      checkAll check skip failFast (failFast && (stopped || !(check path).outcome.isValid)) rest
  | .checked r =>
    r :: checkAll check skip failFast (failFast && (stopped || !r.outcome.isValid)) rest
  | .settled r => r :: checkAll check skip failFast (failFast && stopped) rest
  | .finished r => r :: checkAll check skip failFast (failFast && stopped) rest

/-- A step of the task at hand does not change what is owed. -/
theorem Step.owed_eq (h : Step check skip failFast path s phase s' phase') (rest : List RawText) :
    owed check skip failFast s'.stopped path rest phase' =
      owed check skip failFast s.stopped path rest phase := by
  cases h with
  | grant => rfl
  | go hgo =>
      show check path :: _ = checkAll check skip failFast (failFast && s.stopped) (path :: rest)
      rw [hgo, checkAll, Bool.and_or_distrib_left, hgo]
      rfl
  | skip hstop =>
      show skip path :: checkAll check skip failFast (failFast && s.stopped) rest =
        checkAll check skip failFast (failFast && s.stopped) (path :: rest)
      rw [hstop]
      rfl
  | check => rfl
  | settle => rfl
  | release => rfl

/-- An element behind a split list is in its first part, or it is the one in the middle, or it comes
later. -/
theorem split_cases {α : Type} {first rest before after : List α} {a c : α}
    (h : first ++ c :: rest = before ++ a :: after) :
    a ∈ first ∨ (first = before ∧ c = a ∧ rest = after) ∨ (c ∈ before ∧ a ∈ rest) := by
  induction first generalizing before with
  | nil =>
      cases before with
      | nil =>
          cases h
          exact .inr (.inl ⟨rfl, rfl, rfl⟩)
      | cons b before =>
          cases h
          exact .inr (.inr ⟨List.mem_cons_self, List.mem_append_right _ List.mem_cons_self⟩)
  | cons d first ih =>
      cases before with
      | nil =>
          cases h
          exact .inl List.mem_cons_self
      | cons b before =>
          obtain ⟨rfl, htail⟩ := List.cons.inj h
          rcases ih htail with ha | ⟨rfl, rfl, rfl⟩ | ⟨hc, ha⟩
          · exact .inl (List.mem_cons_of_mem _ ha)
          · exact .inr (.inl ⟨rfl, rfl, rfl⟩)
          · exact .inr (.inr ⟨List.mem_cons_of_mem _ hc, ha⟩)

/-- The tasks of some files that have not begun. -/
def waitingTasks (paths : List RawText) : List Task :=
  paths.map (fun path => { path := path, phase := .waiting })

/-- The tasks follow one another: some are over, one is at hand, and the others wait. The results
there are and what is owed make up the results of checking one file after the other. -/
inductive Sequential (check skip : RawText → FileResult) (failFast : Bool) (paths : List RawText) :
    Pool → Prop
  | busy {done : List Task} {results : List FileResult} {path : RawText} {rest : List RawText}
      {s : Shared} {phase : Phase} :
      List.Forall₂ (fun t r => t.phase = .finished r) done results →
      (∀ r, phase ≠ .finished r) → s.free + (if phase.holds then 1 else 0) = 1 →
      results ++ owed check skip failFast s.stopped path rest phase =
        checkAll check skip failFast false paths →
      Sequential check skip failFast paths ⟨s, done ++ ⟨path, phase⟩ :: waitingTasks rest⟩
  | ended {done : List Task} {s : Shared} :
      List.Forall₂ (fun t r => t.phase = .finished r) done
        (checkAll check skip failFast false paths) →
      Sequential check skip failFast paths ⟨s, done⟩

namespace Sequential

/-- With the task at hand over, the next one is at hand, if there is one. -/
theorem next {done : List Task} {rest : List RawText}
    (hdone : List.Forall₂ (fun t r => t.phase = .finished r) done results) (hfree : s.free = 1)
    (howed : results ++ checkAll check skip failFast (failFast && s.stopped) rest =
      checkAll check skip failFast false paths) :
    Sequential check skip failFast paths ⟨s, done ++ waitingTasks rest⟩ := by
  cases rest with
  | nil =>
      refine .ended ?_
      rw [← howed]
      simpa [waitingTasks, checkAll] using hdone
  | cons path rest =>
      refine .busy hdone (fun r hr => nomatch hr) ?_ howed
      rw [hfree]
      rfl

theorem start (check skip : RawText → FileResult) (failFast : Bool) {permits : Nat}
    (hpermits : permits ≤ 1) (paths : List RawText) :
    Sequential check skip failFast paths (Pool.start permits paths) := by
  have hfree : max 1 permits = 1 := Nat.max_eq_left hpermits
  show Sequential check skip failFast paths ⟨_, [] ++ waitingTasks paths⟩
  refine next .nil hfree ?_
  show [] ++ checkAll check skip failFast (failFast && false) paths = _
  rw [Bool.and_false]
  rfl

/-- A task that is over takes no step. -/
theorem not_mem_done {done : List Task}
    (hdone : List.Forall₂ (fun t r => t.phase = .finished r) done results)
    (hstep : Step check skip failFast path s phase s' phase') :
    (⟨path, phase⟩ : Task) ∉ done := by
  intro hmem
  have hended : Pool.Ended ⟨s, done⟩ results := hdone
  obtain ⟨r, -, hr⟩ := hended.exists_result hmem
  obtain rfl : phase = .finished r := hr
  cases hstep

/-- A step of the task at hand. -/
theorem step {done : List Task} {rest : List RawText}
    (hdone : List.Forall₂ (fun t r => t.phase = .finished r) done results)
    (hfree : s.free + (if phase.holds then 1 else 0) = 1)
    (howed : results ++ owed check skip failFast s.stopped path rest phase =
      checkAll check skip failFast false paths)
    (hstep : Step check skip failFast path s phase s' phase') :
    Sequential check skip failFast paths ⟨s', done ++ ⟨path, phase'⟩ :: waitingTasks rest⟩ := by
  have hfree' := hstep.permits_eq.trans hfree
  have howed' : results ++ owed check skip failFast s'.stopped path rest phase' =
      checkAll check skip failFast false paths := by
    rw [hstep.owed_eq]
    exact howed
  by_cases hover : ∃ r, phase' = .finished r
  · obtain ⟨r, rfl⟩ := hover
    have hdone' : List.Forall₂ (fun t r => t.phase = .finished r)
        (done ++ [⟨path, .finished r⟩]) (results ++ [r]) :=
      List.rel_append hdone (.cons rfl .nil)
    rw [List.append_cons]
    refine next hdone' hfree' ?_
    rw [← howed', List.append_assoc]
    rfl
  · exact .busy hdone (not_exists.mp hover) hfree' howed'

theorem turn (h : Sequential check skip failFast paths p)
    (hturn : OrderedTurn check skip failFast p p') : Sequential check skip failFast paths p' := by
  obtain ⟨hturn, horder⟩ := hturn
  cases h with
  | @ended done s hdone =>
      generalize htasks : done = tasks at hturn
      cases hturn with
      | step hstep =>
          subst htasks
          exact absurd (List.mem_append_right _ List.mem_cons_self) (not_mem_done hdone hstep)
  | @busy done results path rest s phase hdone hphase hfree howed =>
      generalize htasks : done ++ ⟨path, phase⟩ :: waitingTasks rest = tasks at hturn
      cases hturn with
      | @step before after path₁ _ s' phase₁ phase₂ hstep =>
          rcases split_cases htasks with hmem | ⟨rfl, hsame, rfl⟩ | ⟨hmem, hwaits⟩
          · exact absurd hmem (not_mem_done hdone hstep)
          · cases hsame
            exact step hdone hfree howed hstep
          · -- It would be the next task that gets a permit, but the one at hand has it.
            obtain ⟨path₂, -, hwaiting⟩ := List.mem_map.mp hwaits
            cases hwaiting
            cases hstep with
            | grant =>
                have hnotwaiting : phase.isWaiting = false := by
                  by_contra hwaiting
                  have hnext := (List.pairwise_append.mp horder).2.2 _ hmem _ List.mem_cons_self
                    (by simpa using hwaiting)
                  cases hnext
                cases phase with
                | waiting => cases hnotwaiting
                | finished r => exact absurd rfl (hphase r)
                | admitted | checking | checked _ | settled _ => simp [Phase.holds] at hfree

theorem run (h : Sequential check skip failFast paths p)
    (hrun : Relation.ReflTransGen (OrderedTurn check skip failFast) p p') :
    Sequential check skip failFast paths p' := by
  induction hrun with
  | refl => exact h
  | tail _ hturn ih => exact ih.turn hturn

/-- When all tasks are over, the results are those of checking one file after the other. -/
theorem results_eq (h : Sequential check skip failFast paths p) (hended : p.Ended results) :
    results = checkAll check skip failFast false paths := by
  cases h with
  | @ended done s hdone =>
      have hended : List.Forall₂ (fun t r => t.phase = .finished r) done results := hended
      have hunique : Relator.RightUnique (fun (t : Task) r => t.phase = .finished r) := by
        intro t r r' hr hr'
        exact Phase.finished.inj (hr.symm.trans hr')
      exact hunique.forall₂ hended hdone
  | @busy done _ path rest s phase _ hphase _ _ =>
      obtain ⟨r, -, hr⟩ := hended.exists_result (List.mem_append_right _ List.mem_cons_self)
      exact absurd hr (hphase r)

end Sequential

theorem ReachedInOrder.reached (h : ReachedInOrder check skip failFast permits paths p) :
    Reached check skip failFast permits paths p :=
  Relation.ReflTransGen.mono (fun _ _ hturn => hturn.1) _ _ h

theorem ReachedInOrder.inFileOrder (h : ReachedInOrder check skip failFast permits paths p) :
    p.InFileOrder := by
  cases h with
  | refl => exact Pool.inFileOrder_start permits paths
  | tail _ hturn => exact hturn.2

/-- In the order of the files, too, the batch comes to an end from wherever it is. -/
theorem ReachedInOrder.exists_ended (h : ReachedInOrder check skip failFast permits paths p) :
    ∃ p' results, ReachedInOrder check skip failFast permits paths p' ∧ p'.Ended results := by
  induction p using (wellFounded_turn check skip failFast).induction with
  | _ p ih =>
      rcases (Orderly.start.run h.reached).ended_or_orderedTurn h.inFileOrder with
        ⟨results, hended⟩ | ⟨p', hturn⟩
      · exact ⟨p, results, h, hended⟩
      · exact ih p' hturn.1 (h.tail hturn)

end Theory

/-- **A batch does not depend on its schedule.** However the tasks take turns, no more of them have
a permit than there are, the batch cannot go on for ever, and it cannot get stuck before all tasks
are over. Without stopping, each file then has the result that it has alone, in the order of the
files. With stopping and one permit that is granted in the order of the files, this holds of the
files up to and including the first one that is not accepted, and all others are skipped. In both
cases the results are those of checking one file after the other. -/
theorem results_of_any_schedule {G : Type} (b : Backend G) (g : GrammarSet G)
    (files : Files.Volume) (s : BatchSettings) (paths : List RawText) :
    let check := checkFile b g files s.grammar
    let turn := Turn check (skip s.grammar) s.failFast
    let orderedTurn := OrderedTurn check (skip s.grammar) s.failFast
    let start := Pool.start s.concurrent paths
    WellFounded (fun p' p => turn p p') ∧
    (∀ p, Relation.ReflTransGen turn start p → p.inFlight ≤ max 1 s.concurrent ∧
      ((∃ results, p.Ended results) ∨ ∃ p', turn p p')) ∧
    (s.failFast = false → ∀ p results, Relation.ReflTransGen turn start p → p.Ended results →
      results = paths.map check ∧ results = checkFiles b g files s paths) ∧
    (s.failFast = true → max 1 s.concurrent = 1 →
      ∀ p, Relation.ReflTransGen orderedTurn start p →
        ((∃ results, p.Ended results) ∨ ∃ p', orderedTurn p p') ∧
        ∀ results, p.Ended results →
          let k := (paths.map check).findIdx (fun r => !r.outcome.isValid) + 1
          results = (paths.map check).take k ++ (paths.drop k).map (skip s.grammar) ∧
          results = checkFiles b g files s paths) := by
  intro check turn orderedTurn start
  have horderly : ∀ p, Relation.ReflTransGen turn start p →
      Orderly check (skip s.grammar) s.failFast s.concurrent paths p := fun p hreached =>
    Orderly.start.run hreached
  refine ⟨wellFounded_turn _ _ _, ?_, ?_, ?_⟩
  · intro p hreached
    exact ⟨(horderly p hreached).inFlight_le, (horderly p hreached).ended_or_turn⟩
  · intro hfast p results hreached hended
    have h := horderly p hreached
    rw [hfast] at h
    have hresults := h.results_eq hended
    refine ⟨hresults, ?_⟩
    rw [hresults, checkFiles, hfast]
    exact checkAll_nonstop.symm
  · intro hfast hpermits p hreached
    have hinOrder : ReachedInOrder check (skip s.grammar) s.failFast s.concurrent paths p :=
      hreached
    refine ⟨(horderly p hinOrder.reached).ended_or_orderedTurn hinOrder.inFileOrder, ?_⟩
    intro results hended
    have hsequential := Sequential.start check (skip s.grammar) s.failFast
      (show s.concurrent ≤ 1 by omega) paths
    have hresults := (hsequential.run hreached).results_eq hended
    refine ⟨?_, hresults⟩
    rw [hresults, hfast]
    exact checkAll_failFast

namespace Crowded

/-- A file that is no text, and a document that every engine accepts. -/
def files : Files.Volume :=
  { root := [("bad", .file ⟨#[0xff]⟩), ("good", .file "item".toUTF8)] }

def backend : Backend Unit :=
  { Backend.judging (fun _ _ => .answered 0 []) with
    parse := fun _ => .document { root := some (plain "item" "" []) } }

def grammars : GrammarSet Unit where
  schema := { engine := .schema, grammar := (), model := none }
  pattern := { engine := .pattern, grammar := (), model := none }

def good : FileResult :=
  .valid "good" .schema

def bad : FileResult :=
  .failed "bad" .schema (.io .notText)

theorem checkFile_bad : checkFile backend grammars files .schema "bad" = bad := by
  rfl

theorem checkFile_good : checkFile backend grammars files .schema "good" = good := by
  rfl

/-- Side by side, both files have the results that they have alone. One after the other and with
stopping, the file behind the one that cannot be read is skipped. -/
theorem results_of_any_schedule_crowded :
    (∃ p, Relation.ReflTransGen (Turn (checkFile backend grammars files .schema) (skip .schema)
        false) (.start 2 ["bad", "good"]) p ∧ p.Ended [bad, good]) ∧
    (∃ p, Relation.ReflTransGen (OrderedTurn (checkFile backend grammars files .schema)
        (skip .schema) true) (.start 1 ["bad", "good"]) p ∧
      p.Ended [bad, skip .schema "good"]) := by
  obtain ⟨-, -, hany, -⟩ := results_of_any_schedule backend grammars files
    { concurrent := 2 } ["bad", "good"]
  obtain ⟨-, -, -, hordered⟩ := results_of_any_schedule backend grammars files
    { concurrent := 1, failFast := true } ["bad", "good"]
  constructor
  · obtain ⟨p, results, hreached, hended⟩ := Reached.exists_ended .refl
    obtain ⟨hresults, -⟩ := hany rfl p results hreached hended
    have hboth : results = [bad, good] := by
      rw [hresults, List.map_cons, List.map_singleton, checkFile_bad, checkFile_good]
    exact ⟨p, hreached, hboth ▸ hended⟩
  · obtain ⟨p, results, hreached, hended⟩ := ReachedInOrder.exists_ended .refl
    obtain ⟨-, hresults⟩ := hordered rfl rfl p hreached
    obtain ⟨hresults, -⟩ := hresults results hended
    have hfirst : results = [bad, skip .schema "good"] := by
      rw [hresults, List.map_cons, List.map_singleton, checkFile_bad, checkFile_good]
      rfl
    exact ⟨p, hreached, hfirst ▸ hended⟩

end Crowded

end VideoCatalog.Batch
