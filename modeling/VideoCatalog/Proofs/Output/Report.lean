import VideoCatalog.Output.Report

/-!
# When there is a report

A report for a reader shows any path. One in JSON has its paths as text, so a single file whose path
is no text leaves no report at all, whatever has become of the files. `OutputFormat.Shows` is the
condition on the paths, and it is the only one, for batches (`Presentation.reported_batchText`) as
for imports (`Presentation.reported_importText`).
-/

namespace VideoCatalog

theorem isSome_mapM {α β : Type} (f : α → Option β) (xs : List α) :
    (xs.mapM f).isSome = xs.all (fun x => (f x).isSome) := by
  induction xs with
  | nil => rfl
  | cons x xs ih =>
      rw [List.all_cons, ← ih, List.mapM_cons]
      cases f x with
      | none => rfl
      | some y => cases xs.mapM f <;> rfl

/-- A report on files with these paths can be had in this form. -/
def OutputFormat.Shows (format : OutputFormat) (paths : List RawText) : Prop :=
  format = .json → ∀ path ∈ paths, path.text?.isSome = true

instance (format : OutputFormat) (paths : List RawText) : Decidable (format.Shows paths) :=
  inferInstanceAs (Decidable (format = .json → ∀ path ∈ paths, path.text?.isSome = true))

namespace Presentation

/-- What comes of making a report, which is there exactly if the files can be shown. -/
inductive Reported (shown : Prop) : Except Failure String → Prop
  | text (h : shown) (text : String) : Reported shown (.ok text)
  | pathNotText (h : ¬ shown) : Reported shown (.error .pathNotText)

variable {p : Presentation} {paths : List RawText} {json? : Option Json} {lines : String}

theorem reported_reportText (h : json?.isSome = true ↔ ∀ path ∈ paths, path.text?.isSome = true) :
    Reported (p.format.Shows paths) (p.reportText json? lines) := by
  unfold reportText
  by_cases hformat : p.format = .json
  · rw [if_pos hformat]
    cases json? with
    | some json => exact .text (fun _ => h.mp rfl) json.pretty
    | none => exact .pathNotText fun hshows => Bool.noConfusion (h.mpr (hshows hformat))
  · rw [if_neg hformat]
    exact .text (fun hjson => absurd hjson hformat) lines

theorem isSome_batchJson?_iff (r : BatchReport) :
    (batchJson? r).isSome = true ↔
      ∀ path ∈ r.files.map FileResult.path, path.text?.isSome = true := by
  rw [batchJson?, Option.isSome_map, isSome_mapM, List.all_eq_true, List.forall_mem_map]
  simp only [fileJson?, Option.isSome_map]

theorem isSome_toJson?_iff (r : ImportReport) :
    r.toJson?.isSome = true ↔
      ∀ path ∈ r.files.map FileImport.path, path.text?.isSome = true := by
  rw [ImportReport.toJson?, Option.isSome_map, isSome_mapM, List.all_eq_true, List.forall_mem_map]
  simp only [ImportReport.fileJson?, Option.isSome_map]

theorem reported_batchText (p : Presentation) (r : BatchReport) :
    Reported (p.format.Shows (r.files.map FileResult.path)) (p.batchText r) :=
  reported_reportText (isSome_batchJson?_iff r)

theorem reported_importText (p : Presentation) (r : ImportReport) :
    Reported (p.format.Shows (r.files.map FileImport.path)) (p.importText r) :=
  reported_reportText (isSome_toJson?_iff r)

end Presentation

end VideoCatalog
