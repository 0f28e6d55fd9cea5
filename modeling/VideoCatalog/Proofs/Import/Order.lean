import VideoCatalog.Proofs.Import.Submission

/-!
# Importing files keeps their order and stops once

`importFile_cases` says what one file can do: it adds the record of an admitted text and is
imported, or it leaves the collection alone and is refused or fails. It is never skipped, so the
flag of `importAll` is raised by the first file that is refused or fails and by nothing else.

By induction over the files follow the account of a whole run (`importAll_account`) and, with
`failFast`, what it has in common with the run without (`importAll_failFast`): up to and including
the first file that is refused or fails the two are the same, and the files behind it are not looked
at (`importAll_stopped`). A run without `failFast` over the first files is the beginning of the run
over all of them (`importAll_nonstop_append`), which ties the collections of the two together.
-/

namespace VideoCatalog

variable {G : Type}

/-- The file was refused or could not be read. -/
def ImportStatus.stops (status : ImportStatus) : Bool :=
  status.isRejected || status.isFailed

theorem ImportStatus.isImported_of_stops {status : ImportStatus} (h : status.stops = true) :
    status.isImported = false := by
  cases status with
  | imported id => cases h
  | rejected errors => rfl
  | skipped => rfl
  | failed message => rfl

/-- A file that was not attempted. -/
def FileImport.notAttempted (path : RawText) : FileImport :=
  { path := path, status := .skipped }

/-- A file was imported, and this is its record: its text is valid and holds the record, whose id is
the one reported. -/
structure FileImport.Stored (b : Backend G) (g : GrammarSet G) (files : Files.Volume)
    (choice : GrammarChoice) (f : FileImport) (r : Record) : Prop where
  status : f.status = .imported r.id
  source : ∃ text, files.readText f.path = .ok text ∧
    (g.validate b choice text).isValid = true ∧ b.Holds text r

namespace Store

variable {b : Backend G} {g : GrammarSet G} {files : Files.Volume} {choice : GrammarChoice}
  {failFast : Bool} {path : RawText} {paths : List RawText} {s : Store}

/-! ## One file -/

/-- A file adds the record that it holds and is imported, or it changes nothing and is refused or
fails. -/
theorem importFile_cases (b : Backend G) (g : GrammarSet G) (files : Files.Volume)
    (choice : GrammarChoice) (path : RawText) (s : Store) :
    (∃ text r, files.readText path = .ok text ∧ g.Admits b choice text s r ∧
      importFile b g files choice path s = (.imported r.id, s.push r)) ∨
    (∃ status, status.stops = true ∧ importFile b g files choice path s = (status, s)) := by
  cases hread : files.readText path with
  | error e => exact .inr ⟨.failed e.message, rfl, by simp only [importFile, hread]⟩
  | ok text =>
      by_cases hadmits : ∃ r, g.Admits b choice text s r
      · obtain ⟨r, hr⟩ := hadmits
        exact .inl ⟨text, r, rfl, hr, by simp only [importFile, hread, submit_of_admits hr]⟩
      · obtain ⟨e, he⟩ := submit_of_refused (not_exists.mp hadmits)
        exact .inr ⟨.rejected e.messages, rfl, by simp only [importFile, hread, he]⟩

/-! ## All files -/

theorem importAll_cons {status : ImportStatus} {s' : Store}
    (h : importFile b g files choice path s = (status, s')) :
    importAll b g files choice failFast false (path :: paths) s =
      ({ path := path, status := status } ::
          (importAll b g files choice failFast (failFast && !status.isImported) paths s').1,
        (importAll b g files choice failFast (failFast && !status.isImported) paths s').2) := by
  simp [importAll, h]

/-- Once stopped, nothing is attempted and nothing changes. -/
theorem importAll_stopped :
    importAll b g files choice failFast true paths s = (paths.map FileImport.notAttempted, s) := by
  induction paths with
  | nil => rfl
  | cons path paths ih => simp [importAll, ih, FileImport.notAttempted]

variable (b g files choice failFast) in
/-- What a run reports and leaves behind: one entry a file, and the records of the imported files at
the end of the collection, both in the order of the files. -/
theorem importAll_account (stopped : Bool) (paths : List RawText) (s : Store) :
    (importAll b g files choice failFast stopped paths s).1.map FileImport.path = paths ∧
      ∃ records, (importAll b g files choice failFast stopped paths s).2.records =
          s.records ++ records ∧
        List.Forall₂ (FileImport.Stored b g files choice)
          ((importAll b g files choice failFast stopped paths s).1.filter
            (fun f => f.status.isImported)) records := by
  induction paths generalizing stopped s with
  | nil => exact ⟨rfl, [], by simp [importAll], .nil⟩
  | cons path paths ih =>
      cases stopped with
      | true =>
          rw [importAll_stopped]
          refine ⟨by simp [FileImport.notAttempted, Function.comp_def], [], by simp, ?_⟩
          have hnone : ((path :: paths).map FileImport.notAttempted).filter
              (fun f => f.status.isImported) = [] := by
            simp [List.filter_eq_nil_iff, FileImport.notAttempted, ImportStatus.isImported]
          rw [hnone]
          exact .nil
      | false =>
          obtain ⟨text, r, hread, hadmits, h⟩ | ⟨status, hstops, h⟩ :=
            importFile_cases b g files choice path s
          · obtain ⟨hpaths, records, hrecords, hstored⟩ :=
              ih (failFast && !(ImportStatus.imported r.id).isImported) (s.push r)
            rw [importAll_cons h]
            refine ⟨by simpa using hpaths, r :: records, ?_, ?_⟩
            · rw [hrecords]
              simp [push]
            · exact .cons ⟨rfl, text, hread, hadmits.1, hadmits.2.1⟩ hstored
          · obtain ⟨hpaths, records, hrecords, hstored⟩ :=
              ih (failFast && !status.isImported) s
            rw [importAll_cons h]
            refine ⟨by simpa using hpaths, records, hrecords, ?_⟩
            rw [List.filter_cons_of_neg (by simp [ImportStatus.isImported_of_stops hstops])]
            exact hstored

/-! ## With and without stopping -/

theorem importFile_ne_skipped : (importFile b g files choice path s).1 ≠ .skipped := by
  obtain ⟨_, r, _, _, h⟩ | ⟨status, hstops, h⟩ := importFile_cases b g files choice path s
  · simp [h]
  · rw [h]
    rintro rfl
    cases hstops

theorem importAll_nonstop_cons :
    importAll b g files choice false false (path :: paths) s =
      ({ path := path, status := (importFile b g files choice path s).1 } ::
          (importAll b g files choice false false paths (importFile b g files choice path s).2).1,
        (importAll b g files choice false false paths (importFile b g files choice path s).2).2) :=
  importAll_cons rfl

/-- Without stopping every file is attempted. -/
theorem importAll_nonstop_ne_skipped (paths : List RawText) (s : Store) :
    ∀ f ∈ (importAll b g files choice false false paths s).1, f.status ≠ .skipped := by
  induction paths generalizing s with
  | nil => exact fun _ hf => nomatch hf
  | cons path paths ih =>
      rw [importAll_nonstop_cons, List.forall_mem_cons]
      exact ⟨importFile_ne_skipped, ih _⟩

variable (b g files choice) in
/-- Without stopping, files are dealt with from the collection that those before them leave behind.
-/
theorem importAll_nonstop_append (first rest : List RawText) (s : Store) :
    importAll b g files choice false false (first ++ rest) s =
      ((importAll b g files choice false false first s).1 ++
          (importAll b g files choice false false rest
            (importAll b g files choice false false first s).2).1,
        (importAll b g files choice false false rest
          (importAll b g files choice false false first s).2).2) := by
  induction first generalizing s with
  | nil => rfl
  | cons path first ih =>
      rw [List.cons_append, importAll_nonstop_cons, importAll_nonstop_cons, ih, List.cons_append]

/-- The first files are dealt with as if there were no others. -/
theorem importAll_nonstop_take (k : Nat) (paths : List RawText) (s : Store) :
    (importAll b g files choice false false (paths.take k) s).1 =
      (importAll b g files choice false false paths s).1.take k := by
  induction paths generalizing k s with
  | nil => simp [importAll]
  | cons path paths ih =>
      cases k with
      | zero => rfl
      | succ k => rw [List.take_succ_cons, importAll_nonstop_cons, importAll_nonstop_cons,
          List.take_succ_cons, ih]

variable (b g files choice) in
/-- With stopping, the files up to and including the first one that is refused or fails are dealt
with as without, and those behind it are not attempted. The case split is on whether that file is
the first one of all. -/
theorem importAll_failFast (paths : List RawText) (s : Store) {k : Nat}
    (hk : k = (importAll b g files choice false false paths s).1.findIdx
      (fun f => f.status.stops) + 1) :
    importAll b g files choice true false paths s =
      ((importAll b g files choice false false (paths.take k) s).1 ++
          (paths.drop k).map FileImport.notAttempted,
        (importAll b g files choice false false (paths.take k) s).2) := by
  induction paths generalizing s k with
  | nil => simp [importAll]
  | cons path paths ih =>
      rw [importAll_nonstop_cons, List.findIdx_cons] at hk
      obtain ⟨_, r, _, _, h⟩ | ⟨status, hstops, h⟩ := importFile_cases b g files choice path s
      · have hgo : (ImportStatus.imported r.id).stops = false := rfl
        have hk' : k = (importAll b g files choice false false paths (s.push r)).1.findIdx
            (fun f => f.status.stops) + 1 + 1 := by simpa [h, hgo] using hk
        rw [importAll_cons h, hk', List.take_succ_cons, List.drop_succ_cons,
          importAll_nonstop_cons, h]
        simp only [ImportStatus.isImported, Bool.not_true, Bool.and_false, ih (s.push r) rfl,
          List.cons_append]
      · have hk' : k = 1 := by simpa [h, hstops] using hk
        rw [importAll_cons h, hk', List.take_succ_cons, List.drop_succ_cons,
          importAll_nonstop_cons, h]
        simp [ImportStatus.isImported_of_stops hstops, importAll_stopped, importAll]

end Store

/-! ## Reports -/

/-- A status passes one of the four tests. -/
theorem ImportStatus.sum_tests (status : ImportStatus) :
    (if status.isImported then 1 else 0) + (if status.isRejected then 1 else 0) +
      (if status.isSkipped then 1 else 0) + (if status.isFailed then 1 else 0) = 1 := by
  cases status <;> rfl

theorem ImportReport.sum_counts (report : ImportReport) :
    report.imported + report.rejected + report.skipped + report.failed = report.files.length := by
  obtain ⟨entries⟩ := report
  simp only [imported, rejected, skipped, failed, count]
  induction entries with
  | nil => rfl
  | cons f entries ih =>
      have hone := f.status.sum_tests
      simp only [List.countP_cons, List.length_cons]
      omega

namespace Store

/-- There is one entry a file, in order; the records of the imported files come to the end of the
collection in the same order, each with the id reported; the counters are those of the entries and
add up. Without `failFast` every file is attempted, and the run may be cut after any of them. With
it, the files up to and including the first one that is refused or fails are dealt with as without,
all others are skipped, and the collection is the one that the run without has after that file. -/
theorem importFiles_keeps_order (b : Backend G) (g : GrammarSet G) (files : Files.Volume)
    (choice : GrammarChoice) :
    (∀ (failFast : Bool) (paths : List RawText) (s : Store),
      let run := importFiles b g files choice failFast paths s
      run.1.files.map FileImport.path = paths ∧
      (∃ records, run.2.records = s.records ++ records ∧
        List.Forall₂ (fun f r => f.status = .imported r.id ∧
            ∃ text, files.readText f.path = .ok text ∧
              (g.validate b choice text).isValid = true ∧ b.Holds text r)
          (run.1.files.filter (fun f => f.status.isImported)) records) ∧
      run.1.imported = (run.1.files.filter (fun f => f.status.isImported)).length ∧
      run.1.rejected = (run.1.files.filter (fun f => f.status.isRejected)).length ∧
      run.1.skipped = (run.1.files.filter (fun f => f.status.isSkipped)).length ∧
      run.1.failed = (run.1.files.filter (fun f => f.status.isFailed)).length ∧
      run.1.imported + run.1.rejected + run.1.skipped + run.1.failed = paths.length) ∧
    (∀ (paths : List RawText) (s : Store),
      ∀ f ∈ (importFiles b g files choice false paths s).1.files, f.status ≠ .skipped) ∧
    (∀ (paths : List RawText) (s : Store) (k : Nat),
      let first := importFiles b g files choice false (paths.take k) s
      let rest := importFiles b g files choice false (paths.drop k) first.2
      importFiles b g files choice false paths s =
          ({ files := first.1.files ++ rest.1.files }, rest.2) ∧
        (importFiles b g files choice false paths s).1.files.take k = first.1.files) ∧
    (∀ (paths : List RawText) (s : Store),
      let full := importFiles b g files choice false paths s
      let k := full.1.files.findIdx (fun f => f.status.isRejected || f.status.isFailed) + 1
      importFiles b g files choice true paths s =
        ({ files := full.1.files.take k ++ (paths.drop k).map FileImport.notAttempted },
          (importFiles b g files choice false (paths.take k) s).2)) := by
  refine ⟨?_, importAll_nonstop_ne_skipped, ?_, ?_⟩
  · intro failFast paths s run
    obtain ⟨hpaths, records, hrecords, hstored⟩ :=
      importAll_account b g files choice failFast false paths s
    have hlength : run.1.files.length = paths.length := by
      rw [← List.length_map FileImport.path]
      exact congrArg List.length hpaths
    refine ⟨hpaths, ⟨records, hrecords, hstored.imp fun _ _ h => ⟨h.status, h.source⟩⟩,
      List.countP_eq_length_filter, List.countP_eq_length_filter, List.countP_eq_length_filter,
      List.countP_eq_length_filter, ?_⟩
    rw [ImportReport.sum_counts, hlength]
  · intro paths s k first rest
    have hcut := importAll_nonstop_append b g files choice (paths.take k) (paths.drop k) s
    rw [List.take_append_drop] at hcut
    exact ⟨congrArg (fun p => (ImportReport.mk p.1, p.2)) hcut,
      (importAll_nonstop_take k paths s).symm⟩
  · intro paths s full k
    have hstop : importAll b g files choice true false paths s = _ :=
      importAll_failFast b g files choice paths s rfl
    rw [importAll_nonstop_take] at hstop
    exact congrArg (fun p => (ImportReport.mk p.1, p.2)) hstop

namespace Batch

open Files (Volume)

/-- One document under two names, a text that does not parse, and a file that is no text. -/
def files : Volume :=
  { root := [("a", .file "item".toUTF8), ("b", .file "item".toUTF8), ("c", .file "".toUTF8),
      ("d", .file ⟨#[0xff]⟩)] }

/-- The second copy of the document conflicts with the first one, so with `failFast` the run ends
there; without, the text that does not parse is refused and the file that is no text fails. -/
theorem importFiles_keeps_order_batch :
    (importFiles Twice.backend Twice.grammars files .schema true ["a", "b", "c", "d"] {}) =
        ({ files := [⟨"a", .imported 7⟩, ⟨"b", .rejected ["Item with ID 7 already exists."]⟩,
            .notAttempted "c", .notAttempted "d"] }, { records := [Twice.stored] }) ∧
      (importFiles Twice.backend Twice.grammars files .schema false ["a", "d", "a"] {}).1.files.map
          FileImport.path = ["a", "d", "a"] ∧
      ∀ f ∈ (importFiles Twice.backend Twice.grammars files .schema false ["a", "d"] {}).1.files,
        f.status ≠ .skipped := by
  obtain ⟨haccount, hattempted, _, hstop⟩ :=
    importFiles_keeps_order Twice.backend Twice.grammars files .schema
  exact ⟨(hstop ["a", "b", "c", "d"] {}).trans rfl, (haccount false ["a", "d", "a"] {}).1,
    hattempted ["a", "d"] {}⟩

end Batch

end Store

end VideoCatalog
