import VideoCatalog.Program
import VideoCatalog.Proofs.Batch.Schedule
import VideoCatalog.Proofs.Import.Order
import VideoCatalog.Proofs.Outcome
import VideoCatalog.Proofs.Output.Report

/-!
# What the exit code says about the files

A command that finds its grammars and its files ends with 0 if all files are accepted and with 1
otherwise. The code is taken from counters of files that are rejected or fail; files that are
skipped are in none of them. So it rests on what both loops over files keep: a file is skipped only
behind another one that was rejected or failed (`Batch.Orderly.caused`, `Store.caused_importAll`).

`Tells` is the property of a code, and `tells_exitCode` gets it for any kind of results of which
that much is known. For a batch it holds under every schedule, and the code is the same under all of
them (`Batch.Orderly.hasErrors_eq`).

The report comes before the code. Where JSON was asked for and a file has a path that is no text,
there is no report, and a run ends with 2 although every file may be accepted: `TellsIf` has this
as its other case, and `Nameless` is such a run.
-/

namespace VideoCatalog

variable {G : Type}

/-! ## Codes -/

namespace Program

/-- A code that says whether all results are good ones, without passing over those of skipped
files. -/
structure Tells {α : Type} (code : Nat) (good skipped : α → Bool) (results : List α) : Prop where
  zero_iff : code = 0 ↔ ∀ r ∈ results, good r = true
  one_iff : code = 1 ↔ ∃ r ∈ results, good r = false
  of_skipped : (∃ r ∈ results, skipped r = true) → code = 1

theorem exitCode_eq_zero_iff {hasErrors : Bool} : exitCode hasErrors = 0 ↔ hasErrors = false := by
  cases hasErrors with
  | true => exact iff_of_false Nat.one_ne_zero Bool.noConfusion
  | false => exact iff_of_true rfl rfl

theorem exitCode_eq_one_iff {hasErrors : Bool} : exitCode hasErrors = 1 ↔ hasErrors = true := by
  cases hasErrors with
  | true => exact iff_of_true rfl rfl
  | false => exact iff_of_false Nat.zero_ne_one Bool.false_ne_true

/-- A code that tells if the results are shown, and is 2 if they are not. -/
structure TellsIf {α : Type} (shown : Prop) (code : Nat) (good skipped : α → Bool)
    (results : List α) : Prop where
  tells : shown → Tells code good skipped results
  code_eq_two : ¬ shown → code = 2
  ne_zero_of_skipped : (∃ r ∈ results, skipped r = true) → code ≠ 0

theorem tellsIf {α : Type} {shown : Prop} [Decidable shown] {code : Nat} {good skipped : α → Bool}
    {results : List α} (h : Tells code good skipped results) :
    TellsIf shown (if shown then code else 2) good skipped results := by
  by_cases hshown : shown
  · rw [if_pos hshown]
    refine ⟨fun _ => h, fun hnot => absurd hshown hnot, fun hskipped => ?_⟩
    rw [h.of_skipped hskipped]
    exact Nat.one_ne_zero
  · rw [if_neg hshown]
    exact ⟨fun h => absurd h hshown, fun _ => rfl, fun _ => Nat.noConfusion⟩

/-- A result is a good one, a bad one or that of a skipped file; errors are bad results, and a file
is skipped only if there is one. -/
theorem tells_exitCode {α : Type} {hasErrors : Bool} {good skipped : α → Bool} {bad : α → Prop}
    {results : List α} (herrors : hasErrors = true ↔ ∃ r ∈ results, bad r)
    (hcases : ∀ r, good r = false ↔ bad r ∨ skipped r = true)
    (hcaused : (∃ r ∈ results, skipped r = true) → ∃ r ∈ results, bad r) :
    Tells (exitCode hasErrors) good skipped results := by
  have hbad : hasErrors = true ↔ ∃ r ∈ results, good r = false := by
    rw [herrors]
    constructor
    · rintro ⟨r, hr, h⟩
      exact ⟨r, hr, (hcases r).mpr (.inl h)⟩
    · rintro ⟨r, hr, h⟩
      rcases (hcases r).mp h with h | h
      · exact ⟨r, hr, h⟩
      · exact hcaused ⟨r, hr, h⟩
  refine ⟨?_, exitCode_eq_one_iff.trans hbad, ?_⟩
  · rw [exitCode_eq_zero_iff, ← Bool.not_eq_true, hbad]
    constructor
    · intro hnone r hr
      by_contra hgood
      exact hnone ⟨r, hr, by simpa using hgood⟩
    · rintro hall ⟨r, hr, hbad⟩
      rw [hall r hr] at hbad
      cases hbad
  · rintro ⟨r, hr, hskipped⟩
    exact exitCode_eq_one_iff.mpr (hbad.mpr ⟨r, hr, (hcases r).mpr (.inr hskipped)⟩)

end Program

/-! ## Batches -/

namespace Batch

open Program (Tells exitCode)

variable {check skip : RawText → FileResult} {failFast : Bool} {permits : Nat}
  {paths : List RawText} {p : Pool} {results : List FileResult}

theorem path_checkFile (b : Backend G) (g : GrammarSet G) (files : Files.Volume)
    (choice : GrammarChoice) (path : RawText) : (checkFile b g files choice path).path = path := by
  unfold checkFile
  cases files.readText path with
  | error e => rfl
  | ok text =>
      dsimp only
      unfold FileResult.ofResult
      split
      · rfl
      · rfl

theorem isSkipped_checkFile (b : Backend G) (g : GrammarSet G) (files : Files.Volume)
    (choice : GrammarChoice) (path : RawText) :
    (checkFile b g files choice path).outcome.isSkipped = false := by
  unfold checkFile
  cases files.readText path with
  | error e => rfl
  | ok text =>
      dsimp only
      unfold FileResult.ofResult
      split
      · rfl
      · rfl

theorem isValid_eq_false_iff (r : FileResult) :
    r.outcome.isValid = false ↔ IsRejected r ∨ r.outcome.isSkipped = true := by
  constructor
  · intro hvalid
    cases hskipped : r.outcome.isSkipped with
    | true => exact .inr rfl
    | false => exact .inl (isRejected_of_not hvalid hskipped)
  · rintro (hrejected | hskipped)
    · exact hrejected.isValid_eq_false
    · cases houtcome : r.outcome with
      | skipped reason => rfl
      | valid | invalid _ | failed _ =>
          rw [houtcome] at hskipped
          cases hskipped

namespace Orderly

/-- The results are about the files, in their order. -/
theorem map_path (h : Orderly check skip failFast permits paths p) (hended : p.Ended results)
    (hcheck : ∀ path, (check path).path = path) (hskip : ∀ path, (skip path).path = path) :
    results.map FileResult.path = paths := by
  have hpath : ∀ t ∈ p.tasks, ∀ r, t.phase = .finished r → r.path = t.path := by
    intro t ht r hr
    rcases h.result_cases ht hr with rfl | ⟨-, rfl⟩
    · exact hcheck t.path
    · exact hskip t.path
  rw [← h.paths]
  unfold Pool.Ended at hended
  generalize p.tasks = tasks at hended hpath
  induction hended with
  | nil => rfl
  | cons hr _ ih =>
      obtain ⟨hfirst, hrest⟩ := List.forall_mem_cons.mp hpath
      rw [List.map_cons, List.map_cons, ih hrest, hfirst _ hr]

/-- What all checks give, and the results for skipped files have too, all results have. -/
theorem forall_results (h : Orderly check skip failFast permits paths p) (hended : p.Ended results)
    {good : FileResult → Prop} (hcheck : ∀ path, good (check path))
    (hskip : ∀ path, good (skip path)) : ∀ r ∈ results, good r := by
  intro r hr
  obtain ⟨t, ht, hfinished⟩ := hended.exists_task hr
  rcases h.result_cases ht hfinished with rfl | ⟨-, rfl⟩
  · exact hcheck t.path
  · exact hskip t.path

/-- **The code of a batch.** Whatever the schedule, and whatever the check of one file is. -/
theorem tells (h : Orderly check skip failFast permits paths p) (hended : p.Ended results)
    (hcheck : ∀ path, (check path).outcome.isSkipped = false) (metrics : Metrics) :
    Tells (exitCode (BatchReport.mk results metrics).hasErrors) (fun r => r.outcome.isValid)
      (fun r => r.outcome.isSkipped) results :=
  Program.tells_exitCode (BatchReport.hasErrors_iff _) isValid_eq_false_iff
    (h.caused hended hcheck)

/-- Results are all good ones if the files by themselves are: only then the flag stays down. -/
theorem isValid_iff (h : Orderly check skip failFast permits paths p) (hended : p.Ended results)
    (hskip : ∀ path, (skip path).outcome.isValid = false) :
    (∀ r ∈ results, r.outcome.isValid = true) ↔
      ∀ path ∈ paths, (check path).outcome.isValid = true := by
  constructor
  · intro hall path hpath
    rw [← h.paths] at hpath
    obtain ⟨t, ht, rfl⟩ := List.mem_map.mp hpath
    obtain ⟨r, hr, hfinished⟩ := hended.exists_result ht
    have hvalid := hall r hr
    rcases h.result_cases ht hfinished with rfl | ⟨-, rfl⟩
    · exact hvalid
    · rw [hskip] at hvalid
      cases hvalid
  · intro hall r hr
    have halone : ∀ t ∈ p.tasks, (check t.path).outcome.isValid = true := by
      intro t ht
      refine hall t.path ?_
      rw [← h.paths]
      exact List.mem_map_of_mem ht
    obtain ⟨t, ht, hfinished⟩ := hended.exists_task hr
    rcases h.result_cases ht hfinished with rfl | ⟨hstop, -⟩
    · exact halone t ht
    · obtain ⟨t', ht', hvalid, -⟩ := h.cause (Bool.and_eq_true_iff.mp hstop).2
      rw [halone t' ht'] at hvalid
      cases hvalid

/-- The files by themselves decide whether there are errors. So all schedules agree on it, even if
they do not skip the same files. -/
theorem hasErrors_eq (h : Orderly check skip failFast permits paths p) (hended : p.Ended results)
    (hcheck : ∀ path, (check path).outcome.isSkipped = false)
    (hskip : ∀ path, (skip path).outcome.isValid = false) (metrics : Metrics) :
    (BatchReport.mk results metrics).hasErrors =
      paths.any (fun path => !(check path).outcome.isValid) := by
  rw [Bool.eq_iff_iff, ← not_iff_not, Bool.not_eq_true, ← Program.exitCode_eq_zero_iff,
    (h.tells hended hcheck metrics).zero_iff, h.isValid_iff hended hskip]
  simp

end Orderly

/-- Checking one file after the other is one of the schedules: that with one permit, granted in the
order of the files. -/
theorem exists_reached_checkFiles (b : Backend G) (g : GrammarSet G) (files : Files.Volume)
    (s : BatchSettings) (paths : List RawText) :
    ∃ p, Reached (checkFile b g files s.grammar) (Batch.skip s.grammar) s.failFast 1 paths p ∧
      p.Ended (checkFiles b g files s paths) := by
  have hstart : ReachedInOrder (checkFile b g files s.grammar) (Batch.skip s.grammar) s.failFast 1
      paths (Pool.start 1 paths) := .refl
  obtain ⟨p, results, hreached, hended⟩ := hstart.exists_ended
  have hresults : results = checkFiles b g files s paths :=
    ((Sequential.start _ _ _ le_rfl paths).run hreached).results_eq hended
  exact ⟨p, hreached.reached, hresults ▸ hended⟩

theorem map_path_checkFiles (b : Backend G) (g : GrammarSet G) (files : Files.Volume)
    (s : BatchSettings) (paths : List RawText) :
    (checkFiles b g files s paths).map FileResult.path = paths := by
  obtain ⟨p, hreached, hended⟩ := exists_reached_checkFiles b g files s paths
  exact (Orderly.start.run hreached).map_path hended (path_checkFile b g files s.grammar)
    (fun _ => rfl)

end Batch

/-! ## Imports -/

/-- The file was refused or could not be read. -/
theorem ImportReport.hasErrors_iff (report : ImportReport) :
    report.hasErrors = true ↔ ∃ f ∈ report.files, f.status.stops = true := by
  rw [hasErrors, Bool.or_eq_true, decide_eq_true_eq, decide_eq_true_eq, rejected, failed, count,
    count, gt_iff_lt, gt_iff_lt, List.countP_pos_iff, List.countP_pos_iff]
  constructor
  · rintro (⟨f, hf, hrejected⟩ | ⟨f, hf, hfailed⟩)
    · exact ⟨f, hf, Bool.or_eq_true_iff.mpr (.inl hrejected)⟩
    · exact ⟨f, hf, Bool.or_eq_true_iff.mpr (.inr hfailed)⟩
  · rintro ⟨f, hf, hstops⟩
    rcases Bool.or_eq_true_iff.mp hstops with hrejected | hfailed
    · exact .inl ⟨f, hf, hrejected⟩
    · exact .inr ⟨f, hf, hfailed⟩

theorem ImportStatus.isImported_eq_false_iff (status : ImportStatus) :
    status.isImported = false ↔ status.stops = true ∨ status.isSkipped = true := by
  cases status with
  | imported id => simp [isImported, stops, isRejected, isFailed, isSkipped]
  | rejected errors => simp [isImported, stops, isRejected]
  | skipped => simp [isImported, isSkipped]
  | failed message => simp [isImported, stops, isFailed]

namespace Store

variable {b : Backend G} {g : GrammarSet G} {files : Files.Volume} {choice : GrammarChoice}
  {failFast : Bool}

/-- A file is skipped only behind one that was refused or failed. -/
theorem caused_importAll (paths : List RawText) (s : Store)
    (h : ∃ f ∈ (importAll b g files choice failFast false paths s).1, f.status.isSkipped = true) :
    ∃ f ∈ (importAll b g files choice failFast false paths s).1, f.status.stops = true := by
  induction paths generalizing s with
  | nil =>
      obtain ⟨f, hf, -⟩ := h
      cases hf
  | cons path paths ih =>
      obtain ⟨f, hf, hskipped⟩ := h
      obtain ⟨_, r, _, _, hfile⟩ | ⟨status, hstops, hfile⟩ :=
        importFile_cases b g files choice path s
      · have hgo : (failFast && !(ImportStatus.imported r.id).isImported) = false :=
          Bool.and_false failFast
        rw [importAll_cons hfile, hgo] at hf ⊢
        rcases List.mem_cons.mp hf with rfl | hf
        · cases hskipped
        · obtain ⟨cause, hcause, hstops⟩ := ih (s.push r) ⟨f, hf, hskipped⟩
          exact ⟨cause, List.mem_cons_of_mem _ hcause, hstops⟩
      · rw [importAll_cons hfile]
        exact ⟨_, List.mem_cons_self, hstops⟩

theorem map_path_importFiles (b : Backend G) (g : GrammarSet G) (files : Files.Volume)
    (choice : GrammarChoice) (failFast : Bool) (paths : List RawText) (s : Store) :
    (importFiles b g files choice failFast paths s).1.files.map FileImport.path = paths :=
  (importAll_account b g files choice failFast false paths s).1

/-- **The code of an import.** -/
theorem tells_importFiles (b : Backend G) (g : GrammarSet G) (files : Files.Volume)
    (choice : GrammarChoice) (failFast : Bool) (paths : List RawText) (s : Store) :
    Program.Tells
      (Program.exitCode (importFiles b g files choice failFast paths s).1.hasErrors)
      (fun f => f.status.isImported) (fun f => f.status.isSkipped)
      (importFiles b g files choice failFast paths s).1.files :=
  Program.tells_exitCode (ImportReport.hasErrors_iff _)
    (fun f => f.status.isImported_eq_false_iff) (caused_importAll paths s)

end Store

/-! ## Commands -/

namespace Program

section Theory

variable {b : Backend G} {w : World} {c : CommandLine} {config : Config} {g : GrammarSet G}
  {paths : List RawText} {o : Options} {path : RawText} {term : String}

/-- All is there that a command on documents needs: its settings, the grammars, and the files that
are to be worked on. -/
structure Prepared (b : Backend G) (w : World) (c : CommandLine) (config : Config)
    (g : GrammarSet G) (paths : List RawText) : Prop where
  usable : c.check w.files = .ok ()
  settings : settings w c.options = .ok config
  grammars : grammars b w config = .ok g
  files : ∃ f, filter config = .ok f ∧ Discovery.files f w.files false c.command.path = .ok paths

/-- What a command does once all is there. -/
theorem carryOut_of_prepared (h : Prepared b w c config g paths) :
    ∃ f, Discovery.files f w.files false c.command.path = .ok paths ∧
      carryOut b w c =
        match c.command with
        | .validate path => validate b w config f path
        | .importFrom path => importFrom b w config f path
        | .search path term => search b w config f path term
        | .convert path => convert w path := by
  obtain ⟨f, hfilter, hfiles⟩ := h.files
  refine ⟨f, hfiles, ?_⟩
  rw [carryOut, h.usable, h.settings]
  show (filter config >>= _) = _
  rw [hfilter]
  rfl

theorem importPath_eq {f : FileFilter} (hgrammars : grammars b w config = .ok g)
    (hfiles : Discovery.files f w.files false path = .ok paths) :
    importPath b w config f path = .ok (Store.importFiles b g w.files config.validation.grammar
      config.validation.failFast paths {}) := by
  rw [importPath, hgrammars, hfiles]
  rfl

/-- A command that makes a report ends with its own code, or with 2 if there is no report. -/
theorem code_of_reported {shown : Prop} [Decidable shown] {text : Except Failure String}
    {code : Nat} (htext : Presentation.Reported shown text)
    (hcarry : carryOut b w c = text.mapError Fatal.ofFailure >>= fun output =>
      .ok { code := code, output := output, files := w.files }) :
    (run b w c).code = if shown then code else 2 := by
  rw [run, hcarry]
  cases htext with
  | text hshown text => exact (if_pos hshown).symm
  | pathNotText hhidden => exact (if_neg hhidden).symm

theorem code_validate (h : Prepared b w ⟨.validate path, o⟩ config g paths) :
    (run b w ⟨.validate path, o⟩).code =
      if config.output.format.Shows paths then exitCode (BatchReport.mk
        (Batch.checkFiles b g w.files (.ofConfig config w.processors) paths)
        { concurrent := (BatchSettings.ofConfig config w.processors).concurrent }).hasErrors
      else 2 := by
  obtain ⟨f, hfiles, hrun⟩ := carryOut_of_prepared h
  have hfiles : Discovery.files f w.files false path = .ok paths := hfiles
  have hvalidate : carryOut b w ⟨.validate path, o⟩ = validate b w config f path := hrun
  have hreport : Batch.checkPath b g w.files (.ofConfig config w.processors) f path =
      .ok (.mk (Batch.checkFiles b g w.files (.ofConfig config w.processors) paths)
        { concurrent := (BatchSettings.ofConfig config w.processors).concurrent }) := by
    unfold Batch.checkPath
    rw [hfiles]
    rfl
  have htext := (presentation w config).reported_batchText (.mk
    (Batch.checkFiles b g w.files (.ofConfig config w.processors) paths)
    { concurrent := (BatchSettings.ofConfig config w.processors).concurrent })
  rw [Batch.map_path_checkFiles] at htext
  refine code_of_reported htext ?_
  rw [hvalidate, validate, h.grammars]
  simp only [bind, Except.bind, Except.mapError, hreport]

theorem code_importFrom (h : Prepared b w ⟨.importFrom path, o⟩ config g paths) :
    (run b w ⟨.importFrom path, o⟩).code =
      if config.output.format.Shows paths then exitCode (Store.importFiles b g w.files
        config.validation.grammar config.validation.failFast paths {}).1.hasErrors
      else 2 := by
  obtain ⟨f, hfiles, hrun⟩ := carryOut_of_prepared h
  have hfiles : Discovery.files f w.files false path = .ok paths := hfiles
  have himport : carryOut b w ⟨.importFrom path, o⟩ = importFrom b w config f path := hrun
  have htext := (presentation w config).reported_importText (Store.importFiles b g w.files
    config.validation.grammar config.validation.failFast paths {}).1
  rw [Store.map_path_importFiles] at htext
  refine code_of_reported htext ?_
  rw [himport, importFrom, importPath_eq h.grammars hfiles]
  rfl

/-- The report before a search is for a reader, so it is there. -/
theorem exists_importNotice (w : World) (config : Config) (report : ImportReport) :
    ∃ notice, importNotice w config report = .ok notice := by
  unfold importNotice
  split
  · next h =>
    have hformat : config.output.format = .human := by
      simp only [Bool.and_eq_true, decide_eq_true_eq] at h
      exact h.2
    have htext := (presentation w config).reported_importText report
    generalize (presentation w config).importText report = text at htext
    cases htext with
    | text _ text => exact ⟨text, rfl⟩
    | pathNotText hhidden =>
        refine absurd (fun hjson => ?_) hhidden
        cases hformat.symm.trans hjson
  · exact ⟨"", rfl⟩

/-- A search that succeeds ends as the import before it would, and one that fails ends with 2. -/
theorem code_search (h : Prepared b w ⟨.search path term, o⟩ config g paths) :
    (run b w ⟨.search path term, o⟩).code =
      match (Search.run b (Store.importFiles b g w.files config.validation.grammar
        config.validation.failFast paths {}).2.toList term).found with
      | .ok _ => exitCode (Store.importFiles b g w.files config.validation.grammar
          config.validation.failFast paths {}).1.hasErrors
      | .error _ => 2 := by
  obtain ⟨f, hfiles, hrun⟩ := carryOut_of_prepared h
  have hfiles : Discovery.files f w.files false path = .ok paths := hfiles
  have hsearch : carryOut b w ⟨.search path term, o⟩ = search b w config f path term := hrun
  rw [run, hsearch, search, importPath_eq h.grammars hfiles]
  generalize Store.importFiles b g w.files _ _ paths {} = imported
  obtain ⟨report, store⟩ := imported
  obtain ⟨notice, hnotice⟩ := exists_importNotice w config report
  simp only [bind, Except.bind, hnotice]
  cases (Search.run b store.toList term).found with
  | error e => rfl
  | ok records => rfl

/-- What goes before the work of a command, taken apart. -/
theorem exists_of_carryOut {exit : Exit} (h : carryOut b w c = .ok exit) :
    c.check w.files = .ok () ∧ ∃ config f, settings w c.options = .ok config ∧
      filter config = .ok f ∧ (match c.command with
        | .validate path => validate b w config f path
        | .importFrom path => importFrom b w config f path
        | .search path term => search b w config f path term
        | .convert path => convert w path) = .ok exit := by
  obtain ⟨_, husable, h⟩ := exists_of_bind_eq_ok h
  obtain ⟨config, hsettings, h⟩ := exists_of_bind_eq_ok h
  obtain ⟨f, hfilter, h⟩ := exists_of_bind_eq_ok h
  exact ⟨eq_ok_of_mapError husable, config, f, hsettings, hfilter, h⟩

theorem exists_of_importPath {f : FileFilter} {imported : ImportReport × Store}
    (h : importPath b w config f path = .ok imported) :
    ∃ g paths, grammars b w config = .ok g ∧ Discovery.files f w.files false path = .ok paths := by
  obtain ⟨g, hgrammars, h⟩ := exists_of_bind_eq_ok h
  obtain ⟨paths, hfiles, -⟩ := exists_of_bind_eq_ok h
  exact ⟨g, paths, hgrammars, eq_ok_of_mapError hfiles⟩

/-- A command on documents that finds something missing ends with 2. -/
theorem exists_prepared (hcommand : ∀ path, c.command ≠ .convert path)
    (hcode : (run b w c).code ≠ 2) : ∃ config g paths, Prepared b w c config g paths := by
  unfold run at hcode
  cases hcarry : carryOut b w c with
  | error fatal =>
      rw [hcarry] at hcode
      exact absurd rfl hcode
  | ok exit =>
      obtain ⟨husable, config, f, hsettings, hfilter, hwork⟩ := exists_of_carryOut hcarry
      obtain ⟨g, paths, hgrammars, hfiles⟩ : ∃ g paths, grammars b w config = .ok g ∧
          Discovery.files f w.files false c.command.path = .ok paths := by
        cases hc : c.command with
        | convert path => exact absurd hc (hcommand path)
        | validate path =>
            rw [hc] at hwork
            obtain ⟨g, hgrammars, hwork⟩ := exists_of_bind_eq_ok hwork
            obtain ⟨report, hreport, -⟩ := exists_of_bind_eq_ok hwork
            obtain ⟨paths, hfiles, -⟩ := exists_of_bind_eq_ok (eq_ok_of_mapError hreport)
            exact ⟨g, paths, hgrammars, eq_ok_of_mapError hfiles⟩
        | importFrom path =>
            rw [hc] at hwork
            obtain ⟨imported, himported, -⟩ := exists_of_bind_eq_ok hwork
            exact exists_of_importPath himported
        | search path term =>
            rw [hc] at hwork
            obtain ⟨imported, himported, -⟩ := exists_of_bind_eq_ok hwork
            exact exists_of_importPath himported
      exact ⟨config, g, paths, husable, hsettings, hgrammars, f, hfilter, hfiles⟩

end Theory

namespace Strict

/-- A file that is no text, a document, and a grammar. -/
def world : World where
  files :=
    { root := [("a.xml", .file ⟨#[0xff]⟩), ("b.xml", .file "item".toUTF8),
        ("grammar", .file "".toUTF8)] }

def backend : Backend Nat :=
  { Store.Twice.backend with compile := fun _ _ _ => .compiled 0 }

def options : Options :=
  { schema := some "grammar", pattern := some "grammar", failFast := true }

def config : Config where
  schemas := { schema := some "grammar", pattern := some "grammar" }
  validation := { failFast := true }

def grammars : GrammarSet Nat where
  schema := { engine := .schema, grammar := 0, model := none }
  pattern := { engine := .pattern, grammar := 0, model := none }

def paths : List RawText :=
  ["./a.xml", "./b.xml"]

theorem prepared {command : Command} (h : command.path = ".") :
    Prepared backend world ⟨command, options⟩ config grammars paths where
  usable := by
    show (if !world.files.contains command.path then _ else _) = _
    rw [h]
    rfl
  settings := rfl
  grammars := rfl
  files := by
    refine ⟨_, rfl, ?_⟩
    show Discovery.files _ world.files false command.path = _
    rw [h]
    exact congrArg Except.ok (List.mergeSort_of_pairwise (by decide))

end Strict

/-!
## A name that is no text

A directory holds one document, under a name that begins with a byte that is no text.
-/

namespace Nameless

/-- The name of the document. -/
def name : RawText :=
  ⟨0xff :: ".xml".toUTF8.data.toList⟩

def world : World where
  files :=
    { root := [("d", .directory [(name, .file "item".toUTF8)]), ("grammar", .file "".toUTF8)] }

/-- The options with a form for the report. -/
def optionsFor (format : OutputFormat) : Options :=
  { schema := some "grammar", pattern := some "grammar", format := some format }

def configFor (format : OutputFormat) : Config where
  schemas := { schema := some "grammar", pattern := some "grammar" }
  output := { format := format }

def paths : List RawText :=
  [Files.Path.join "d" name]

def filter : FileFilter where
  extensions := ["xml"]
  inclusions := []
  exclusions := []
  maxDepth := none

theorem files_eq : Discovery.files filter world.files false "d" = .ok paths :=
  congrArg Except.ok (List.mergeSort_of_pairwise (by decide))

theorem prepared {command : Command} (h : command.path = "d") (format : OutputFormat) :
    Prepared Strict.backend world ⟨command, optionsFor format⟩ (configFor format) Strict.grammars
      paths where
  usable := by
    show (if !world.files.contains command.path then _ else _) = _
    rw [h]
    rfl
  settings := rfl
  grammars := rfl
  files := by
    refine ⟨filter, rfl, ?_⟩
    show Discovery.files _ world.files false command.path = _
    rw [h]
    exact files_eq

theorem not_shows : ¬ OutputFormat.json.Shows paths := by
  decide

end Nameless

end Program

end VideoCatalog
