import Mathlib.Logic.Relation
import Mathlib.Order.WellFounded
import VideoCatalog.Proofs.Batch.Report

/-!
# The tasks of a batch

The files of a batch are checked side by side, each by a task of its own. A task waits for a permit,
looks at the stop flag, checks its file, raises the flag if the document is not accepted, and only
then gives its permit back. `Step` says what one task can do next, given the free permits and the
flag; `Turn` is a step of any task. The order of the turns is left open, so a run of turns is any
schedule.

`Orderly` is what every turn keeps: permits are neither lost nor made, each task has the result of
its own file or was skipped while the flag was up, and the flag is up only if some file is rejected.
Every turn brings a task nearer to its end, and some task can always go on. So a batch ends
(`Reached.exists_ended`), whatever the schedule.
-/

namespace VideoCatalog.Batch

/-- How far the task of a file has come. -/
inductive Phase where
  /-- It has no permit yet. -/
  | waiting
  /-- It has a permit and has not looked at the stop flag. -/
  | admitted
  /-- It is not going to be skipped. -/
  | checking
  /-- It has a result, of which the stop flag does not know yet. -/
  | checked (r : FileResult)
  /-- All that is left is to give the permit back. -/
  | settled (r : FileResult)
  | finished (r : FileResult)

namespace Phase

def isWaiting : Phase → Bool
  | .waiting => true
  | _ => false

/-- Whether the task has a permit. -/
def holds : Phase → Bool
  | .waiting => false
  | .finished _ => false
  | _ => true

/-- The number of steps that are left at most. -/
def stepsLeft : Phase → Nat
  | .waiting => 5
  | .admitted => 4
  | .checking => 3
  | .checked _ => 2
  | .settled _ => 1
  | .finished _ => 0

end Phase

structure Task where
  path : RawText
  phase : Phase

/-- What all tasks share. -/
structure Shared where
  /-- The permits that no task has. -/
  free : Nat
  /-- The stop flag. -/
  stopped : Bool

structure Pool where
  shared : Shared
  /-- The tasks in the order of the files. -/
  tasks : List Task

namespace Pool

/-- The number of tasks that have a permit. -/
def inFlight (p : Pool) : Nat :=
  p.tasks.countP (fun t => t.phase.holds)

/-- All tasks are over, and these are their results in the order of the files. -/
def Ended (p : Pool) (results : List FileResult) : Prop :=
  List.Forall₂ (fun t r => t.phase = .finished r) p.tasks results

/-- Permits have been granted in the order of the files: behind a task that waits all others do. -/
def InFileOrder (p : Pool) : Prop :=
  p.tasks.Pairwise (fun t u => t.phase.isWaiting = true → u.phase.isWaiting = true)

/-- The tasks of some files, before any of them has done anything. -/
def start (permits : Nat) (paths : List RawText) : Pool where
  shared := { free := max 1 permits, stopped := false }
  tasks := paths.map (fun path => { path := path, phase := .waiting })

end Pool

/-- What a task can do next. -/
inductive Step (check skip : RawText → FileResult) (failFast : Bool) (path : RawText) :
    Shared → Phase → Shared → Phase → Prop
  | grant {free : Nat} {stopped : Bool} :
      Step check skip failFast path ⟨free + 1, stopped⟩ .waiting ⟨free, stopped⟩ .admitted
  | go {s : Shared} : (failFast && s.stopped) = false →
      Step check skip failFast path s .admitted s .checking
  | skip {s : Shared} : (failFast && s.stopped) = true →
      Step check skip failFast path s .admitted s (.settled (skip path))
  | check {s : Shared} : Step check skip failFast path s .checking s (.checked (check path))
  | settle {free : Nat} {stopped : Bool} {r : FileResult} :
      Step check skip failFast path ⟨free, stopped⟩ (.checked r)
        ⟨free, stopped || !r.outcome.isValid⟩ (.settled r)
  | release {free : Nat} {stopped : Bool} {r : FileResult} :
      Step check skip failFast path ⟨free, stopped⟩ (.settled r) ⟨free + 1, stopped⟩ (.finished r)

/-- A step of one of the tasks. -/
inductive Turn (check skip : RawText → FileResult) (failFast : Bool) : Pool → Pool → Prop
  | step {before after : List Task} {path : RawText} {s s' : Shared} {phase phase' : Phase} :
      Step check skip failFast path s phase s' phase' →
      Turn check skip failFast ⟨s, before ++ ⟨path, phase⟩ :: after⟩
        ⟨s', before ++ ⟨path, phase'⟩ :: after⟩

/-- A turn that keeps to the order of the files when it grants a permit. -/
def OrderedTurn (check skip : RawText → FileResult) (failFast : Bool) (p p' : Pool) : Prop :=
  Turn check skip failFast p p' ∧ p'.InFileOrder

/-- All that can be reached when the tasks of some files take turns. -/
def Reached (check skip : RawText → FileResult) (failFast : Bool) (permits : Nat)
    (paths : List RawText) (p : Pool) : Prop :=
  Relation.ReflTransGen (Turn check skip failFast) (Pool.start permits paths) p

/-- All that can be reached when permits are granted in the order of the files. -/
def ReachedInOrder (check skip : RawText → FileResult) (failFast : Bool) (permits : Nat)
    (paths : List RawText) (p : Pool) : Prop :=
  Relation.ReflTransGen (OrderedTurn check skip failFast) (Pool.start permits paths) p

section Theory

variable {check skip : RawText → FileResult} {failFast stopped : Bool} {path : RawText}
  {paths : List RawText} {permits : Nat} {s s' : Shared} {phase phase' : Phase} {p p' : Pool}
  {results : List FileResult}

/-! ## One step -/

theorem Step.stepsLeft_lt (h : Step check skip failFast path s phase s' phase') :
    phase'.stepsLeft < phase.stepsLeft := by
  cases h with
  | grant => exact Nat.lt_succ_self 4
  | go => exact Nat.lt_succ_self 3
  | skip =>
      show 1 < 4
      omega
  | check => exact Nat.lt_succ_self 2
  | settle => exact Nat.lt_succ_self 1
  | release => exact Nat.lt_succ_self 0

/-- Permits are neither lost nor made. -/
theorem Step.permits_eq (h : Step check skip failFast path s phase s' phase') :
    s'.free + (if phase'.holds then 1 else 0) = s.free + (if phase.holds then 1 else 0) := by
  cases h with
  | grant => rfl
  | go => rfl
  | skip => rfl
  | check => rfl
  | settle => rfl
  | release => rfl

/-- The flag is not taken down. -/
theorem Step.stopped_of_stopped (h : Step check skip failFast path s phase s' phase')
    (hs : s.stopped = true) : s'.stopped = true := by
  cases h with
  | grant => exact hs
  | go => exact hs
  | skip => exact hs
  | check => exact hs
  | settle =>
      show (_ || _) = true
      exact Bool.or_eq_true_iff.mpr (.inl hs)
  | release => exact hs

/-- A task that has a permit can go on. -/
theorem exists_step_of_holds (check skip : RawText → FileResult) (failFast : Bool) (path : RawText)
    (s : Shared) (h : phase.holds = true) :
    ∃ s' phase', Step check skip failFast path s phase s' phase' := by
  cases phase with
  | waiting => cases h
  | admitted =>
      cases hstop : failFast && s.stopped with
      | true => exact ⟨_, _, .skip hstop⟩
      | false => exact ⟨_, _, .go hstop⟩
  | checking => exact ⟨_, _, .check⟩
  | checked r => exact ⟨_, _, .settle⟩
  | settled r => exact ⟨_, _, .release⟩
  | finished r => cases h

theorem Step.isWaiting_eq_false (h : Step check skip failFast path s phase s' phase') :
    phase'.isWaiting = false := by
  cases h with
  | grant => rfl
  | go => rfl
  | skip => rfl
  | check => rfl
  | settle => rfl
  | release => rfl

/-! ## What every turn keeps -/

/-- What a task has to show for its file: the result that the file has alone, or it was skipped
while the flag was up. -/
inductive Fits (check skip : RawText → FileResult) (stopping : Bool) (path : RawText) : Phase → Prop
  | waiting : Fits check skip stopping path .waiting
  | admitted : Fits check skip stopping path .admitted
  | checking : Fits check skip stopping path .checking
  | checked : Fits check skip stopping path (.checked (check path))
  | settled : Fits check skip stopping path (.settled (check path))
  | finished : Fits check skip stopping path (.finished (check path))
  | passing : stopping = true → Fits check skip stopping path (.settled (skip path))
  | passed : stopping = true → Fits check skip stopping path (.finished (skip path))

theorem Fits.mono {stopping stopping' : Bool} (h : Fits check skip stopping path phase)
    (hle : stopping = true → stopping' = true) : Fits check skip stopping' path phase := by
  cases h with
  | waiting => exact .waiting
  | admitted => exact .admitted
  | checking => exact .checking
  | checked => exact .checked
  | settled => exact .settled
  | finished => exact .finished
  | passing hstop => exact .passing (hle hstop)
  | passed hstop => exact .passed (hle hstop)

theorem Fits.step (h : Fits check skip (failFast && s.stopped) path phase)
    (hstep : Step check skip failFast path s phase s' phase') :
    Fits check skip (failFast && s'.stopped) path phase' := by
  cases hstep with
  | grant => exact .admitted
  | go => exact .checking
  | skip hstop => exact .passing hstop
  | check => exact .checked
  | settle =>
      cases h with
      | checked => exact .settled
  | release =>
      cases h with
      | settled => exact .finished
      | passing hstop => exact .passed hstop

/-- The file of the task is not accepted, and the flag knows of it. -/
def Task.Raises (check : RawText → FileResult) (t : Task) : Prop :=
  (check t.path).outcome.isValid = false ∧
    (t.phase = .settled (check t.path) ∨ t.phase = .finished (check t.path))

/-- The permits are accounted for, there is one task a file, each task has what its file calls for,
and the flag is up only if a file is not accepted. -/
structure Orderly (check skip : RawText → FileResult) (failFast : Bool) (permits : Nat)
    (paths : List RawText) (p : Pool) : Prop where
  permits : p.shared.free + p.inFlight = max 1 permits
  paths : p.tasks.map Task.path = paths
  fits : ∀ t ∈ p.tasks, Fits check skip (failFast && p.shared.stopped) t.path t.phase
  cause : p.shared.stopped = true → ∃ t ∈ p.tasks, t.Raises check

namespace Orderly

theorem start : Orderly check skip failFast permits paths (Pool.start permits paths) where
  permits := by
    have hnone : (Pool.start permits paths).inFlight = 0 := by
      refine List.countP_eq_zero.mpr ?_
      intro t ht
      obtain ⟨path, -, rfl⟩ := List.mem_map.mp ht
      exact Bool.false_ne_true
    rw [hnone]
    rfl
  paths := by
    show List.map _ (List.map _ paths) = paths
    rw [List.map_map]
    exact List.map_id paths
  fits := by
    intro t ht
    obtain ⟨path, -, rfl⟩ := List.mem_map.mp ht
    exact .waiting
  cause := fun hstopped => nomatch hstopped

/-- The flag goes up with the task that settles a result that is not accepted. -/
theorem cause_step {before after : List Task}
    (h : Orderly check skip failFast permits paths ⟨s, before ++ ⟨path, phase⟩ :: after⟩)
    (hstep : Step check skip failFast path s phase s' phase') (hstopped : s'.stopped = true) :
    ∃ t ∈ before ++ ⟨path, phase'⟩ :: after, t.Raises check := by
  -- A task that has raised the flag before still stands there, perhaps one step further on.
  have hkeep : (s.stopped = true) → ∃ t ∈ before ++ ⟨path, phase'⟩ :: after, t.Raises check := by
    intro hs
    obtain ⟨t, ht, hraises⟩ := h.cause hs
    rcases List.mem_append.mp ht with ht | ht
    · exact ⟨t, List.mem_append_left _ ht, hraises⟩
    · rcases List.mem_cons.mp ht with rfl | ht
      · obtain ⟨hvalid, hphase | hphase⟩ := hraises
        · have hphase : phase = .settled (check path) := hphase
          subst hphase
          cases hstep with
          | release =>
              exact ⟨_, List.mem_append_right _ List.mem_cons_self, hvalid, .inr rfl⟩
        · have hphase : phase = .finished (check path) := hphase
          subst hphase
          cases hstep
      · exact ⟨t, List.mem_append_right _ (List.mem_cons_of_mem _ ht), hraises⟩
  have hfits : Fits check skip (failFast && s.stopped) path phase :=
    h.fits ⟨path, phase⟩ (List.mem_append_right _ List.mem_cons_self)
  cases hstep with
  | grant => exact hkeep hstopped
  | go => exact hkeep hstopped
  | skip => exact hkeep hstopped
  | check => exact hkeep hstopped
  | release => exact hkeep hstopped
  | settle =>
      rcases Bool.or_eq_true_iff.mp hstopped with hs | hr
      · exact hkeep hs
      · cases hfits with
        | checked =>
            refine ⟨_, List.mem_append_right _ List.mem_cons_self, ?_, .inl rfl⟩
            simpa using hr

theorem turn (h : Orderly check skip failFast permits paths p)
    (hturn : Turn check skip failFast p p') : Orderly check skip failFast permits paths p' := by
  cases hturn with
  | @step before after path s s' phase phase' hstep =>
      refine ⟨?_, ?_, ?_, h.cause_step hstep⟩
      · have hcount := h.permits
        have hstepped := hstep.permits_eq
        simp only [Pool.inFlight, List.countP_append, List.countP_cons] at hcount ⊢
        omega
      · rw [← h.paths]
        simp
      · have hmono : (failFast && s.stopped) = true → (failFast && s'.stopped) = true := by
          intro hstop
          obtain ⟨hfast, hs⟩ := Bool.and_eq_true_iff.mp hstop
          exact Bool.and_eq_true_iff.mpr ⟨hfast, hstep.stopped_of_stopped hs⟩
        intro t ht
        rcases List.mem_append.mp ht with ht | ht
        · exact (h.fits t (List.mem_append_left _ ht)).mono hmono
        · rcases List.mem_cons.mp ht with rfl | ht
          · exact (h.fits _ (List.mem_append_right _ List.mem_cons_self)).step hstep
          · exact (h.fits t (List.mem_append_right _ (List.mem_cons_of_mem _ ht))).mono hmono

theorem run (h : Orderly check skip failFast permits paths p)
    (hrun : Relation.ReflTransGen (Turn check skip failFast) p p') :
    Orderly check skip failFast permits paths p' := by
  induction hrun with
  | refl => exact h
  | tail _ hturn ih => exact ih.turn hturn

theorem inFlight_le (h : Orderly check skip failFast permits paths p) :
    p.inFlight ≤ max 1 permits := by
  have hpermits := h.permits
  omega

end Orderly

/-! ## Results -/

/-- Each result is that of a task. -/
theorem Pool.Ended.exists_task (h : p.Ended results) {r : FileResult} (hr : r ∈ results) :
    ∃ t ∈ p.tasks, t.phase = .finished r := by
  unfold Pool.Ended at h
  generalize p.tasks = tasks at h
  induction h with
  | nil => cases hr
  | @cons t r' tasks results ht _ ih =>
      rcases List.mem_cons.mp hr with rfl | hr
      · exact ⟨t, List.mem_cons_self, ht⟩
      · obtain ⟨t', ht', hfinished⟩ := ih hr
        exact ⟨t', List.mem_cons_of_mem _ ht', hfinished⟩

/-- Each task has a result. -/
theorem Pool.Ended.exists_result (h : p.Ended results) {t : Task} (ht : t ∈ p.tasks) :
    ∃ r ∈ results, t.phase = .finished r := by
  unfold Pool.Ended at h
  generalize p.tasks = tasks at h ht
  induction h with
  | nil => cases ht
  | @cons t' r tasks results hr _ ih =>
      rcases List.mem_cons.mp ht with rfl | ht
      · exact ⟨r, List.mem_cons_self, hr⟩
      · obtain ⟨r', hr', hfinished⟩ := ih ht
        exact ⟨r', List.mem_cons_of_mem _ hr', hfinished⟩

namespace Orderly

/-- A task that is over has the result of its file, or was skipped while the flag was up. -/
theorem result_cases (h : Orderly check skip failFast permits paths p) {t : Task} (ht : t ∈ p.tasks)
    {r : FileResult} (hr : t.phase = .finished r) :
    r = check t.path ∨ (failFast && p.shared.stopped) = true ∧ r = skip t.path := by
  have hfits := h.fits t ht
  rw [hr] at hfits
  cases hfits with
  | finished => exact .inl rfl
  | passed hstop => exact .inr ⟨hstop, rfl⟩

/-- Without stopping, each file has the result that it has alone. -/
theorem results_eq (h : Orderly check skip false permits paths p) (hended : p.Ended results) :
    results = paths.map check := by
  have halone : ∀ t ∈ p.tasks, ∀ r, t.phase = .finished r → r = check t.path := by
    intro t ht r hr
    rcases h.result_cases ht hr with hr | ⟨hstop, -⟩
    · exact hr
    · cases hstop
  rw [← h.paths, List.map_map]
  unfold Pool.Ended at hended
  generalize p.tasks = tasks at hended halone
  induction hended with
  | nil => rfl
  | cons hr _ ih =>
      obtain ⟨hfirst, hrest⟩ := List.forall_mem_cons.mp halone
      rw [List.map_cons, ← ih hrest, hfirst _ hr]
      rfl

/-- Whatever the schedule, nothing is skipped without a cause. -/
theorem caused (h : Orderly check skip failFast permits paths p) (hended : p.Ended results)
    (hcheck : ∀ path, (check path).outcome.isSkipped = false) : Caused results := by
  rintro ⟨r, hr, hskipped⟩
  obtain ⟨t, ht, hfinished⟩ := hended.exists_task hr
  rcases h.result_cases ht hfinished with rfl | ⟨hstop, -⟩
  · rw [hcheck] at hskipped
    cases hskipped
  · obtain ⟨t', ht', hvalid, hphase⟩ := h.cause (Bool.and_eq_true_iff.mp hstop).2
    obtain ⟨r', hr', hfinished'⟩ := hended.exists_result ht'
    rw [hfinished'] at hphase
    rcases hphase with hphase | hphase
    · cases hphase
    · cases hphase
      exact ⟨_, hr', isRejected_of_not hvalid (hcheck _)⟩

end Orderly

/-! ## Every batch ends -/

/-- The number of steps that all tasks have left at most. -/
def Pool.stepsLeft (p : Pool) : Nat :=
  (p.tasks.map (fun t => t.phase.stepsLeft)).sum

theorem Turn.stepsLeft_lt (h : Turn check skip failFast p p') : p'.stepsLeft < p.stepsLeft := by
  cases h with
  | step hstep =>
      have hlt := hstep.stepsLeft_lt
      simp only [Pool.stepsLeft, List.map_append, List.map_cons, List.sum_append, List.sum_cons]
      omega

/-- No batch goes on for ever. -/
theorem wellFounded_turn (check skip : RawText → FileResult) (failFast : Bool) :
    WellFounded (fun p' p => Turn check skip failFast p p') :=
  Subrelation.wf (fun h => h.stepsLeft_lt) (measure Pool.stepsLeft).wf

theorem exists_ended {tasks : List Task} (h : ∀ t ∈ tasks, ∃ r, t.phase = .finished r) :
    ∃ results, List.Forall₂ (fun t r => t.phase = .finished r) tasks results := by
  induction tasks with
  | nil => exact ⟨[], .nil⟩
  | cons t tasks ih =>
      obtain ⟨⟨r, hr⟩, hrest⟩ := List.forall_mem_cons.mp h
      obtain ⟨results, hresults⟩ := ih hrest
      exact ⟨r :: results, .cons hr hresults⟩

/-- All tasks are over, or one has a permit, or no task has one and some wait. -/
theorem ended_or_holds_or_waiting (p : Pool) :
    (∃ results, p.Ended results) ∨ (∃ t ∈ p.tasks, t.phase.holds = true) ∨
      (p.inFlight = 0 ∧ ∃ t ∈ p.tasks, t.phase.isWaiting = true) := by
  by_cases hholds : ∃ t ∈ p.tasks, t.phase.holds = true
  · exact .inr (.inl hholds)
  · by_cases hwaiting : ∃ t ∈ p.tasks, t.phase.isWaiting = true
    · refine .inr (.inr ⟨List.countP_eq_zero.mpr ?_, hwaiting⟩)
      intro t ht hheld
      exact hholds ⟨t, ht, hheld⟩
    · refine .inl (exists_ended ?_)
      intro t ht
      cases hphase : t.phase with
      | finished r => exact ⟨r, rfl⟩
      | waiting => exact absurd ⟨t, ht, by rw [hphase]; rfl⟩ hwaiting
      | admitted | checking | checked _ | settled _ =>
          exact absurd ⟨t, ht, by rw [hphase]; rfl⟩ hholds

/-- If no task has a permit, there is one to grant. -/
theorem Orderly.exists_free (h : Orderly check skip failFast permits paths p)
    (hnone : p.inFlight = 0) : ∃ free stopped, p.shared = ⟨free + 1, stopped⟩ := by
  have hpermits := h.permits
  rw [hnone, Nat.add_zero] at hpermits
  obtain ⟨⟨free, stopped⟩, tasks⟩ := p
  have hpermits : free = max 1 permits := hpermits
  obtain ⟨n, rfl⟩ : ∃ n, free = n + 1 := ⟨free - 1, by omega⟩
  exact ⟨n, stopped, rfl⟩

/-- A batch that is not over can go on. -/
theorem Orderly.ended_or_turn (h : Orderly check skip failFast permits paths p) :
    (∃ results, p.Ended results) ∨ ∃ p', Turn check skip failFast p p' := by
  rcases ended_or_holds_or_waiting p with hended | ⟨⟨path, phase⟩, ht, hholds⟩ |
    ⟨hnone, ⟨path, phase⟩, ht, hwaiting⟩
  · exact .inl hended
  · obtain ⟨before, after, hsplit⟩ := List.append_of_mem ht
    obtain ⟨s', phase', hstep⟩ := exists_step_of_holds check skip failFast path p.shared hholds
    obtain ⟨shared, tasks⟩ := p
    obtain rfl : tasks = _ := hsplit
    exact .inr ⟨_, .step hstep⟩
  · obtain ⟨before, after, hsplit⟩ := List.append_of_mem ht
    obtain ⟨free, stopped, hshared⟩ := h.exists_free hnone
    obtain ⟨shared, tasks⟩ := p
    obtain rfl : tasks = _ := hsplit
    obtain rfl : shared = _ := hshared
    cases phase with
    | waiting => exact .inr ⟨_, .step .grant⟩
    | admitted | checking | checked _ | settled _ | finished _ => cases hwaiting

/-- A task that moves on with no waiting task in front of it keeps the order. -/
theorem Pool.InFileOrder.step {before after : List Task}
    (h : Pool.InFileOrder ⟨s, before ++ ⟨path, phase⟩ :: after⟩)
    (hbefore : ∀ t ∈ before, t.phase.isWaiting = false) (hphase : phase'.isWaiting = false) :
    Pool.InFileOrder ⟨s', before ++ ⟨path, phase'⟩ :: after⟩ := by
  unfold Pool.InFileOrder at h ⊢
  rw [List.pairwise_append, List.pairwise_cons] at h ⊢
  obtain ⟨hfirst, ⟨-, hafter⟩, -⟩ := h
  refine ⟨hfirst, ⟨?_, hafter⟩, ?_⟩
  · intro t _ hwaiting
    have hwaiting : phase'.isWaiting = true := hwaiting
    rw [hphase] at hwaiting
    cases hwaiting
  · intro t ht u _ hwaiting
    rw [hbefore t ht] at hwaiting
    cases hwaiting

/-- It can go on in the order of the files, too. -/
theorem Orderly.ended_or_orderedTurn (h : Orderly check skip failFast permits paths p)
    (horder : p.InFileOrder) :
    (∃ results, p.Ended results) ∨ ∃ p', OrderedTurn check skip failFast p p' := by
  rcases ended_or_holds_or_waiting p with hended | ⟨⟨path, phase⟩, ht, hholds⟩ |
    ⟨hnone, t, ht, hwaiting⟩
  · exact .inl hended
  · obtain ⟨before, after, hsplit⟩ := List.append_of_mem ht
    obtain ⟨s', phase', hstep⟩ := exists_step_of_holds check skip failFast path p.shared hholds
    obtain ⟨shared, tasks⟩ := p
    obtain rfl : tasks = _ := hsplit
    have hbefore : ∀ t ∈ before, t.phase.isWaiting = false := by
      intro t ht
      by_contra hwaiting
      have hnext : phase.isWaiting = true :=
        (List.pairwise_append.mp horder).2.2 t ht _ List.mem_cons_self (by simpa using hwaiting)
      cases phase with
      | waiting => cases hholds
      | admitted | checking | checked _ | settled _ | finished _ => cases hnext
    exact .inr ⟨_, .step hstep, horder.step hbefore hstep.isWaiting_eq_false⟩
  · -- The first task that waits is the one to be granted a permit.
    obtain ⟨free, stopped, hshared⟩ := h.exists_free hnone
    obtain ⟨⟨path, phase⟩, hfind⟩ : ∃ t, p.tasks.find? (fun t => t.phase.isWaiting) = some t := by
      rw [← Option.isSome_iff_exists, List.find?_isSome]
      exact ⟨t, ht, hwaiting⟩
    obtain ⟨hfirst, before, after, hsplit, hbefore⟩ := List.find?_eq_some_iff_append.mp hfind
    obtain ⟨shared, tasks⟩ := p
    obtain rfl : tasks = _ := hsplit
    obtain rfl : shared = _ := hshared
    cases phase with
    | waiting =>
        refine .inr ⟨_, .step .grant, horder.step ?_ rfl⟩
        intro t ht
        simpa using hbefore t ht
    | admitted | checking | checked _ | settled _ | finished _ => cases hfirst

theorem Pool.inFileOrder_start (permits : Nat) (paths : List RawText) :
    (Pool.start permits paths).InFileOrder := by
  refine List.pairwise_of_forall_mem_list ?_
  intro t _ u hu _
  obtain ⟨path, -, rfl⟩ := List.mem_map.mp hu
  rfl

/-- Whatever has been reached, the batch comes to an end from there. -/
theorem Reached.exists_ended (h : Reached check skip failFast permits paths p) :
    ∃ p' results, Reached check skip failFast permits paths p' ∧ p'.Ended results := by
  induction p using (wellFounded_turn check skip failFast).induction with
  | _ p ih =>
      rcases (Orderly.start.run h).ended_or_turn with ⟨results, hended⟩ | ⟨p', hturn⟩
      · exact ⟨p, results, h, hended⟩
      · exact ih p' hturn (h.tail hturn)

end Theory

end VideoCatalog.Batch
