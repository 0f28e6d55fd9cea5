import Mathlib
import VideoCatalog.Batch

/-!
# The results of a batch, one file after the other

A result keeps the number of its violations apart from their list. Whatever makes a result puts the
length of the list there (`FileResult.Made`), so the violations of a report are those in its lists.

What `Batch.checkAll` gives in closed form: without stopping each file has the result that it has
alone, and with stopping the files behind the first one that is not accepted are skipped
(`checkAll_nonstop`, `checkAll_failFast`).

A report counts the results. Skipped files do not count as errors, so what it says of errors covers
all files only if nothing is skipped without a cause (`Caused`).
-/

namespace VideoCatalog

/-! ## Results and what is counted in them -/

/-- The result was made as one of the four results that there are. -/
inductive FileResult.Made : FileResult → Prop
  | valid (path : RawText) (grammar : GrammarChoice) (duration : Duration) :
      Made (.valid path grammar duration)
  | invalid (path : RawText) (grammar : GrammarChoice) (violations : List String)
      (duration : Duration) : Made (.invalid path grammar violations duration)
  | failed (path : RawText) (grammar : GrammarChoice) (failure : Failure) (duration : Duration) :
      Made (.failed path grammar failure duration)
  | skipped (path : RawText) (grammar : GrammarChoice) (reason : String) :
      Made (.skipped path grammar reason)

/-- As many violations are counted as are listed. -/
theorem FileResult.Made.violationCount_eq {r : FileResult} (h : r.Made)
    (hinvalid : r.outcome.isInvalid = true) : r.outcome.violationCount = r.details.length := by
  cases h with
  | invalid path grammar violations duration => rfl
  | valid | failed | skipped => cases hinvalid

theorem FileOutcome.violationCount_eq_zero {o : FileOutcome} (h : o.isInvalid = false) :
    o.violationCount = 0 := by
  cases o with
  | invalid count => cases h
  | valid | failed _ | skipped _ => rfl

theorem FileResult.made_ofResult (path : RawText) (grammar : GrammarChoice)
    (r : ValidationResult) : (ofResult path grammar r).Made := by
  unfold ofResult
  split
  · exact .valid path grammar {}
  · exact .invalid path grammar r.errors {}

namespace Batch

theorem made_checkFile {G : Type} (b : Backend G) (g : GrammarSet G) (files : Files.Volume)
    (choice : GrammarChoice) (path : RawText) : (checkFile b g files choice path).Made := by
  unfold checkFile
  cases files.readText path with
  | error e => exact .failed path choice (.io e) {}
  | ok text => exact FileResult.made_ofResult path choice _

theorem made_skip (choice : GrammarChoice) (path : RawText) : (skip choice path).Made :=
  .skipped path choice skipReason

variable {check skip : RawText → FileResult} {failFast : Bool} {paths : List RawText}

/-! ## One file after the other -/

theorem checkAll_stopped : checkAll check skip failFast true paths = paths.map skip := by
  induction paths with
  | nil => rfl
  | cons path paths ih =>
      show skip path :: checkAll check skip failFast true paths = _
      rw [ih, List.map_cons]

theorem checkAll_nonstop : checkAll check skip false false paths = paths.map check := by
  induction paths with
  | nil => rfl
  | cons path paths ih =>
      show check path :: checkAll check skip false false paths = _
      rw [ih, List.map_cons]

/-- The files up to and including the first one that is not accepted have the results that they have
without stopping, and all others are skipped. -/
theorem checkAll_failFast :
    checkAll check skip true false paths =
      (paths.map check).take
          ((paths.map check).findIdx (fun r => !r.outcome.isValid) + 1) ++
        (paths.drop ((paths.map check).findIdx (fun r => !r.outcome.isValid) + 1)).map skip := by
  induction paths with
  | nil => rfl
  | cons path paths ih =>
      have hstep : checkAll check skip true false (path :: paths) =
          check path :: checkAll check skip true (!(check path).outcome.isValid) paths := rfl
      rw [hstep, List.map_cons, List.findIdx_cons]
      cases hvalid : (check path).outcome.isValid with
      | true =>
          simp only [Bool.not_true, cond_false, List.take_succ_cons, List.drop_succ_cons,
            List.cons_append]
          rw [ih]
      | false =>
          simp only [Bool.not_false, cond_true, Nat.zero_add, List.take_succ_cons, List.take_zero,
            List.drop_succ_cons, List.drop_zero, checkAll_stopped, List.cons_append,
            List.nil_append]

/-! ## What is skipped has a cause -/

/-- The file is rejected or could not be checked. -/
def IsRejected (r : FileResult) : Prop :=
  r.outcome.isInvalid = true ∨ r.outcome.isFailed = true

/-- If a file is skipped, another one is rejected or could not be checked. -/
def Caused (results : List FileResult) : Prop :=
  (∃ r ∈ results, r.outcome.isSkipped = true) → ∃ r ∈ results, IsRejected r

/-- A result says one of four things. -/
theorem isRejected_of_not {r : FileResult} (hvalid : r.outcome.isValid = false)
    (hskipped : r.outcome.isSkipped = false) : IsRejected r := by
  unfold IsRejected
  cases houtcome : r.outcome with
  | valid =>
      rw [houtcome] at hvalid
      cases hvalid
  | invalid violations => exact .inl rfl
  | failed message => exact .inr rfl
  | skipped reason =>
      rw [houtcome] at hskipped
      cases hskipped

theorem IsRejected.isValid_eq_false {r : FileResult} (h : IsRejected r) :
    r.outcome.isValid = false := by
  unfold IsRejected at h
  cases houtcome : r.outcome with
  | valid =>
      rw [houtcome] at h
      rcases h with h | h
      · cases h
      · cases h
  | invalid violations => rfl
  | failed message => rfl
  | skipped reason => rfl

end Batch

/-! ## Reports -/

namespace BatchReport

/-- An outcome passes one of the four tests. -/
theorem sum_tests (o : FileOutcome) :
    (if o.isValid then 1 else 0) + (if o.isInvalid then 1 else 0) +
      (if o.isFailed then 1 else 0) + (if o.isSkipped then 1 else 0) = 1 := by
  cases o <;> rfl

theorem sum_counts (r : BatchReport) :
    r.valid + r.invalid + r.failed + r.skipped = r.files.length := by
  obtain ⟨files, metrics⟩ := r
  simp only [valid, invalid, failed, skipped, count]
  induction files with
  | nil => rfl
  | cons f files ih =>
      have hone := sum_tests f.outcome
      simp only [List.countP_cons, List.length_cons]
      omega

/-- The violations of results that were made as such are those listed for the rejected documents. -/
theorem violations_eq (r : BatchReport) (hmade : ∀ f ∈ r.files, f.Made) :
    r.violations = ((r.files.filter (fun f => f.outcome.isInvalid)).map
      (fun f => f.details.length)).sum := by
  unfold violations
  generalize r.files = files at hmade ⊢
  induction files with
  | nil => rfl
  | cons f files ih =>
      obtain ⟨hf, hfiles⟩ := List.forall_mem_cons.mp hmade
      rw [List.foldr_cons, ih hfiles]
      cases hinvalid : f.outcome.isInvalid with
      | true =>
          rw [List.filter_cons_of_pos (by exact hinvalid), List.map_cons, List.sum_cons,
            hf.violationCount_eq hinvalid]
      | false =>
          rw [List.filter_cons_of_neg (by rw [hinvalid]; exact Bool.false_ne_true),
            FileOutcome.violationCount_eq_zero hinvalid, Nat.zero_add]

theorem hasErrors_iff (r : BatchReport) :
    r.hasErrors = true ↔ ∃ f ∈ r.files, Batch.IsRejected f := by
  rw [hasErrors, Bool.or_eq_true, decide_eq_true_eq, decide_eq_true_eq, failed, invalid, count,
    count, List.countP_pos_iff, List.countP_pos_iff]
  constructor
  · rintro (⟨f, hf, hfailed⟩ | ⟨f, hf, hinvalid⟩)
    · exact ⟨f, hf, .inr hfailed⟩
    · exact ⟨f, hf, .inl hinvalid⟩
  · rintro ⟨f, hf, hinvalid | hfailed⟩
    · exact .inr ⟨f, hf, hinvalid⟩
    · exact .inl ⟨f, hf, hfailed⟩

end BatchReport

end VideoCatalog
