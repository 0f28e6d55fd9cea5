import Mathlib.Data.List.Forall2
import VideoCatalog.Import
import VideoCatalog.Proofs.Store.Dictionary
import VideoCatalog.Proofs.Validator.Check
import VideoCatalog.Record.Reading

/-!
# Importing is validating, reading and a fresh id

A submission goes through two functions that parse and check a text separately:
`GrammarSet.validate` for those who only want to know, and `GrammarSet.accept` on the way into the
collection. They agree on every text (`accept_eq_invalid_iff`, `accept_eq_ok_iff`). A text gets into
the collection exactly if it is valid, its root reads as a record (`Backend.Holds`) and the id of
that record is not taken; these three are `GrammarSet.Admits`.

`Store.afterSubmission` is what one submission leaves behind. It adds the record of an admitted text
at the end and does nothing otherwise (`afterSubmission_of_admits`, `afterSubmission_of_refused`).
From this one step follows what a run of submissions keeps (`Vouched.run`): no id is held twice, and
the records held are, in order, those of the submissions that succeeded, each read from a text that
is valid under the grammars it was submitted with.

Acceptance itself has no collection to change: its result depends on the engines, the grammars, the
choice and the text alone.
-/

namespace VideoCatalog

open Xml (Document Element)

variable {G : Type}

/-- A text parses, and its root reads as this record. -/
def Backend.Holds (b : Backend G) (text : String) (r : Record) : Prop :=
  ∃ d root, b.document text = .ok d ∧ d.root = some root ∧ Record.ofElement root = .ok r

theorem Backend.holds_iff {b : Backend G} {text : String} {d : Document}
    (h : b.document text = .ok d) (r : Record) :
    b.Holds text r ↔ Record.ofDocument d = .ok r := by
  unfold Backend.Holds Record.ofDocument
  cases hroot : d.root <;> simp [h, hroot]

/-- A text holds one record at most. -/
theorem Backend.Holds.unique {b : Backend G} {text : String} {r r' : Record}
    (h : b.Holds text r) (h' : b.Holds text r') : r = r' := by
  obtain ⟨d, root, hd, hroot, hr⟩ := h
  rw [Backend.holds_iff hd] at h'
  simp only [Record.ofDocument, hroot, hr] at h'
  exact Except.ok.inj h'

/-! ## Acceptance -/

namespace GrammarSet

variable {b : Backend G} {g : GrammarSet G} {choice : GrammarChoice} {text : String} {r : Record}

theorem accept_of_malformed {e : EngineError} (h : b.document text = .error e) :
    g.accept b choice text = .error (.invalid (g.validate b choice text).errors) := by
  simp only [accept, validate, h]

theorem accept_of_violations {d : Document} (h : b.document text = .ok d)
    (hne : g.check b choice d ≠ []) :
    g.accept b choice text = .error (.invalid (g.validate b choice text).errors) := by
  simp [accept, validate, h, hne]

/-- A document without violations is read, and nothing else is asked of it. -/
theorem accept_of_no_violations {d : Document} (h : b.document text = .ok d)
    (hnil : g.check b choice d = []) :
    g.accept b choice text =
      (Record.ofDocument d).mapError (fun e => .deserialization e.message) := by
  simp only [accept, h, hnil, Record.ofDocument]
  cases d.root <;> rfl

theorem isValid_validate_of_malformed {e : EngineError} (h : b.document text = .error e) :
    (g.validate b choice text).isValid = false := by
  simp [validate, h, ValidationResult.isValid, ValidationResult.malformed]

theorem isValid_validate_iff {d : Document} (h : b.document text = .ok d) :
    (g.validate b choice text).isValid = true ↔ g.check b choice d = [] := by
  simp [validate, h, ValidationResult.isValid]

/-- What is refused as invalid is what validation finds invalid, for the same reasons. -/
theorem accept_eq_invalid_iff {errors : List String} :
    g.accept b choice text = .error (.invalid errors) ↔
      (g.validate b choice text).isValid = false ∧ errors = (g.validate b choice text).errors := by
  cases h : b.document text with
  | error e => simp [accept_of_malformed h, isValid_validate_of_malformed h, eq_comm]
  | ok d =>
      rw [← Bool.not_eq_true, isValid_validate_iff h]
      by_cases hnil : g.check b choice d = []
      · rw [accept_of_no_violations h hnil]
        cases Record.ofDocument d <;> simp [Except.mapError, hnil]
      · simp [accept_of_violations h hnil, hnil, eq_comm]

/-- What is accepted is the record of a text that validation finds valid. -/
theorem accept_eq_ok_iff :
    g.accept b choice text = .ok r ↔
      (g.validate b choice text).isValid = true ∧ b.Holds text r := by
  cases h : b.document text with
  | error e => simp [accept_of_malformed h, isValid_validate_of_malformed h]
  | ok d =>
      rw [isValid_validate_iff h, Backend.holds_iff h]
      by_cases hnil : g.check b choice d = []
      · rw [accept_of_no_violations h hnil]
        cases Record.ofDocument d <;> simp [Except.mapError, hnil]
      · simp [accept_of_violations h hnil, hnil]

/-- A text may be added to a collection: it is valid, holds this record, and the id is not taken. -/
def Admits (b : Backend G) (g : GrammarSet G) (choice : GrammarChoice) (text : String) (s : Store)
    (r : Record) : Prop :=
  (g.validate b choice text).isValid = true ∧ b.Holds text r ∧ r.id ∉ s.ids

end GrammarSet

/-! ## One submission -/

namespace Store

variable {b : Backend G} {g : GrammarSet G} {choice : GrammarChoice} {text : String} {s s' : Store}
  {r : Record}

theorem submit_of_admits (h : g.Admits b choice text s r) :
    s.submit b g choice text = (.ok { id := r.id, grammar := choice }, s.push r) := by
  obtain ⟨hvalid, hholds, hfresh⟩ := h
  have haccept : g.accept b choice text = .ok r :=
    GrammarSet.accept_eq_ok_iff.mpr ⟨hvalid, hholds⟩
  simp only [submit, haccept, append_of_fresh hfresh]

/-- A text that may not be added is refused, and the collection is left as it was. -/
theorem submit_of_refused (h : ∀ r, ¬ g.Admits b choice text s r) :
    ∃ e, s.submit b g choice text = (.error e, s) := by
  cases haccept : g.accept b choice text with
  | error e => exact ⟨e, by simp only [submit, haccept]⟩
  | ok r =>
      obtain ⟨hvalid, hholds⟩ := GrammarSet.accept_eq_ok_iff.mp haccept
      have htaken : r.id ∈ s.ids := Classical.byContradiction fun hfresh =>
        h r ⟨hvalid, hholds, hfresh⟩
      refine ⟨.conflict r.id, ?_⟩
      simp only [submit, haccept, append_of_taken htaken, ImportError.ofStore]

/-- A submission succeeds exactly for the texts that may be added, and then adds their record. -/
theorem submit_eq_ok_iff {receipt : Receipt} :
    s.submit b g choice text = (.ok receipt, s') ↔
      ∃ r, g.Admits b choice text s r ∧ receipt = { id := r.id, grammar := choice } ∧
        s' = s.push r := by
  constructor
  · intro h
    by_cases hadmits : ∃ r, g.Admits b choice text s r
    · obtain ⟨r, hr⟩ := hadmits
      rw [submit_of_admits hr] at h
      cases h
      exact ⟨r, hr, rfl, rfl⟩
    · obtain ⟨e, he⟩ := submit_of_refused (not_exists.mp hadmits)
      rw [he] at h
      cases h
  · rintro ⟨r, hr, rfl, rfl⟩
    exact submit_of_admits hr

/-- A submission that fails leaves the collection as it was. -/
theorem submit_of_error {e : ImportError} (h : s.submit b g choice text = (.error e, s')) :
    s' = s := by
  by_cases hadmits : ∃ r, g.Admits b choice text s r
  · obtain ⟨r, hr⟩ := hadmits
    rw [submit_of_admits hr] at h
    cases h
  · obtain ⟨e', he⟩ := submit_of_refused (not_exists.mp hadmits)
    rw [he] at h
    cases h
    rfl

/-- The collection that a submission leaves behind. -/
def afterSubmission (b : Backend G) (g : GrammarSet G) (choice : GrammarChoice) (text : String)
    (s : Store) : Store :=
  (s.submit b g choice text).2

theorem afterSubmission_of_admits (h : g.Admits b choice text s r) :
    afterSubmission b g choice text s = s.push r := by
  rw [afterSubmission, submit_of_admits h]

theorem afterSubmission_of_refused (h : ∀ r, ¬ g.Admits b choice text s r) :
    afterSubmission b g choice text s = s := by
  obtain ⟨e, he⟩ := submit_of_refused h
  rw [afterSubmission, he]

/-! ## Runs of submissions -/

/-- A text and the grammars that it is submitted under. -/
structure Submission where
  choice : GrammarChoice
  text : String

/-- The collection after some submissions, one after the other. -/
def afterSubmissions (b : Backend G) (g : GrammarSet G) : List Submission → Store → Store
  | [], s => s
  | x :: xs, s => afterSubmissions b g xs (afterSubmission b g x.choice x.text s)

/-- The submissions among some that succeed, one after the other, each with its receipt. -/
def acknowledged (b : Backend G) (g : GrammarSet G) :
    List Submission → Store → List (Submission × Receipt)
  | [], _ => []
  | x :: xs, s =>
    match s.submit b g x.choice x.text with
    | (.ok receipt, s) => (x, receipt) :: acknowledged b g xs s
    | (.error _, s) => acknowledged b g xs s

/-- A record stands behind a successful submission: the text is valid under the grammars that it was
submitted with and holds this record, and the receipt names the id and those grammars. -/
structure Backs (b : Backend G) (g : GrammarSet G) (x : Submission × Receipt) (r : Record) :
    Prop where
  valid : (g.validate b x.1.choice x.1.text).isValid = true
  holds : b.Holds x.1.text r
  receipt : x.2 = { id := r.id, grammar := x.1.choice }

/-- No id is held twice, and the records held are those behind the submissions of a log, in order.
-/
structure Vouched (b : Backend G) (g : GrammarSet G) (log : List (Submission × Receipt))
    (s : Store) : Prop where
  distinct : s.ids.Nodup
  backed : List.Forall₂ (Backs b g) log s.records

/-- A submission that succeeds adds itself to the log, and its record to the collection. -/
theorem Vouched.push {log : List (Submission × Receipt)} {x : Submission} (h : Vouched b g log s)
    (hr : g.Admits b x.choice x.text s r) :
    Vouched b g (log ++ [(x, { id := r.id, grammar := x.choice })]) (s.push r) where
  distinct := by
    have hids : (s.push r).ids = s.ids ++ [r.id] := by simp [ids, Store.push]
    rw [hids]
    refine List.nodup_append.mpr ⟨h.distinct, by simp, ?_⟩
    intro id hid id' hid' heq
    obtain rfl := List.mem_singleton.mp hid'
    exact hr.2.2 (heq ▸ hid)
  backed := List.rel_append h.backed (.cons ⟨hr.1, hr.2.1, rfl⟩ .nil)

/-- What a run keeps, by its first submission: it succeeds and is logged, or changes nothing. -/
theorem Vouched.run {log : List (Submission × Receipt)} (h : Vouched b g log s)
    (xs : List Submission) :
    Vouched b g (log ++ acknowledged b g xs s) (afterSubmissions b g xs s) := by
  induction xs generalizing log s with
  | nil => simpa [acknowledged, afterSubmissions] using h
  | cons x xs ih =>
      by_cases hadmits : ∃ r, g.Admits b x.choice x.text s r
      · obtain ⟨r, hr⟩ := hadmits
        have hlog : acknowledged b g (x :: xs) s =
            (x, { id := r.id, grammar := x.choice }) :: acknowledged b g xs (s.push r) := by
          simp only [acknowledged, submit_of_admits hr]
        rw [afterSubmissions, afterSubmission_of_admits hr, hlog, List.append_cons]
        exact ih (h.push hr)
      · have hrefused := not_exists.mp hadmits
        obtain ⟨e, he⟩ := submit_of_refused hrefused
        have hlog : acknowledged b g (x :: xs) s = acknowledged b g xs s := by
          simp only [acknowledged, he]
        rw [afterSubmissions, afterSubmission_of_refused hrefused, hlog]
        exact ih h

/-- A text is refused as invalid for exactly what validation reports; it is imported exactly if it
is valid, its root reads as a record and the id is fresh, and then its record is added at the end
and acknowledged; else the collection stays as it is. So a collection that began empty holds the
records of the submissions that succeeded, each from a text that is valid under the grammars it was
imported with, and no id twice. -/
theorem submission_is_atomic (b : Backend G) (g : GrammarSet G) :
    (∀ (choice : GrammarChoice) (text : String) (errors : List String),
      g.accept b choice text = .error (.invalid errors) ↔
        (g.validate b choice text).isValid = false ∧
          errors = (g.validate b choice text).errors) ∧
    (∀ (choice : GrammarChoice) (text : String) (s : Store) (receipt : Receipt) (s' : Store),
      s.submit b g choice text = (.ok receipt, s') ↔
        ∃ r, (g.validate b choice text).isValid = true ∧ b.Holds text r ∧ r.id ∉ s.ids ∧
          receipt = { id := r.id, grammar := choice } ∧ s'.records = s.records ++ [r]) ∧
    (∀ (choice : GrammarChoice) (text : String) (s s' : Store) (e : ImportError),
      s.submit b g choice text = (.error e, s') → s' = s) ∧
    (∀ submissions : List Submission,
      (afterSubmissions b g submissions {}).ids.Nodup ∧
        List.Forall₂
          (fun x r => (g.validate b x.1.choice x.1.text).isValid = true ∧ b.Holds x.1.text r ∧
            x.2 = { id := r.id, grammar := x.1.choice })
          (acknowledged b g submissions {}) (afterSubmissions b g submissions {}).records) := by
  refine ⟨fun _ _ _ => GrammarSet.accept_eq_invalid_iff, ?_, fun _ _ _ _ _ => submit_of_error, ?_⟩
  · intro choice text s receipt s'
    rw [submit_eq_ok_iff]
    refine exists_congr fun r => ?_
    have hpush : s' = s.push r ↔ s'.records = s.records ++ [r] :=
      ⟨fun h => h ▸ rfl, fun h => by cases s'; exact congrArg Store.mk h⟩
    rw [hpush, GrammarSet.Admits, and_assoc, and_assoc]
  · intro submissions
    have hempty : Vouched b g [] {} := ⟨List.nodup_nil, .nil⟩
    have hrun := hempty.run submissions
    exact ⟨hrun.distinct, hrun.backed.imp fun _ _ h => ⟨h.valid, h.holds, h.receipt⟩⟩

namespace Twice

def item : Element :=
  plain "item" "" [plain "id" " 7 " [], plain "title" "Paris" []]

/-- Engines that know one document, about which only the pattern engine complains. -/
def backend : Backend Nat :=
  { Backend.judging (fun grammar _ =>
      if grammar = 0 then .answered 0 [] else .rejected ["Element item failed to validate"]) with
    parse := fun text =>
      if text = "item" then .document { root := some item } else .malformed none }

def grammars : GrammarSet Nat where
  schema := { engine := .schema, grammar := 0, model := none }
  pattern := { engine := .pattern, grammar := 1, model := none }

def stored : Record :=
  { id := 7, title := "Paris" }

/-- The same text twice under the schema, once under the pattern, and a text that does not parse. -/
def submissions : List Submission :=
  [⟨.pattern, "item"⟩, ⟨.schema, "item"⟩, ⟨.schema, ""⟩, ⟨.schema, "item"⟩]

theorem holds_item : backend.Holds "item" stored :=
  ⟨{ root := some item }, item, rfl, rfl, rfl⟩

/-- The first submission that is valid is stored; the second one of its id is refused, as are the
text that the pattern rejects and the one that does not parse. -/
theorem submission_is_atomic_twice :
    submit backend grammars .schema "item" {} =
        (.ok { id := 7, grammar := .schema }, { records := [stored] }) ∧
      (∃ e, submit backend grammars .schema "item" { records := [stored] } =
        (.error e, { records := [stored] })) ∧
      grammars.accept backend .pattern "item" =
        .error (.invalid ["pattern: Element item failed to validate"]) ∧
      (afterSubmissions backend grammars submissions {}).ids.Nodup ∧
      (afterSubmissions backend grammars submissions {}).records = [stored] ∧
      (grammars.validate backend .schema "item").isValid = true ∧
      backend.Holds "item" stored := by
  obtain ⟨hinvalid, hsubmit, hkeeps, hrun⟩ := submission_is_atomic backend grammars
  have hstored : submit backend grammars .schema "item" {} =
      (.ok { id := 7, grammar := .schema }, { records := [stored] }) :=
    (hsubmit .schema "item" {} _ _).mpr ⟨stored, by decide, holds_item, by decide, rfl, rfl⟩
  have htaken : ∃ e, submit backend grammars .schema "item" { records := [stored] } =
      (.error e, { records := [stored] }) := by
    cases hanswer : submit backend grammars .schema "item" { records := [stored] } with
    | mk answer s' =>
        cases answer with
        | error e => exact ⟨e, by rw [hkeeps .schema "item" _ _ _ hanswer]⟩
        | ok receipt =>
            obtain ⟨r, _, hr, hfresh, _, _⟩ := (hsubmit .schema "item" _ _ _).mp hanswer
            obtain rfl : r = stored := hr.unique holds_item
            exact absurd (by decide) hfresh
  obtain ⟨hdistinct, hbacked⟩ := hrun submissions
  have hrecords : (afterSubmissions backend grammars submissions {}).records = [stored] := by decide
  have hlog : acknowledged backend grammars submissions {} =
      [(⟨.schema, "item"⟩, { id := 7, grammar := .schema })] := rfl
  rw [hlog, hrecords, List.forall₂_cons] at hbacked
  exact ⟨hstored, htaken,
    (hinvalid .pattern "item" _).mpr (by decide), hdistinct, hrecords, hbacked.1.1, hbacked.1.2.1⟩

end Twice

end Store

end VideoCatalog
