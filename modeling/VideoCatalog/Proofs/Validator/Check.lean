import VideoCatalog.Validator

/-!
# What a validator hands on

The messages of `Validator.check` come from two places, the verdict of the engine and the listing of
the model, and those of the pattern engine go through `collapse` on the way. There is one lemma for
each way through:

* `check_of_accepted` — the engine accepts the document, and its warnings are handed on;
* `check_of_listed` — it does not, and the model has a listing that is not empty;
* `check_of_unlisted` — it does not, and the model has nothing to say.

What an engine reports on its own is `Engine.ownMessages`.

`collapse` never empties a list (`collapse_eq_nil_iff`), and the violations that a model finds are no
repetitions, whatever the elements are called (`isRepetition_violationMessage`).
-/

namespace VideoCatalog

open Grammar (Model Violation)
open Xml (Element)

/-! ## Dropping repetitions -/

theorem collapse_eq_nil_iff (messages : List String) : collapse messages = [] ↔ messages = [] := by
  unfold collapse
  by_cases h : (messages.filter (fun m => !isRepetition m)).isEmpty
  · simp only [h, if_true]
  · have hkept : messages.filter (fun m => !isRepetition m) ≠ [] := by simpa using h
    have hne : messages ≠ [] := by
      rintro rfl
      exact hkept rfl
    simp only [h, Bool.false_eq_true, if_false]
    exact iff_of_false hkept hne

namespace Engine

theorem condense_eq_nil_iff (engine : Engine) (messages : List String) :
    engine.condense messages = [] ↔ messages = [] := by
  cases engine with
  | schema => exact Iff.rfl
  | pattern => exact collapse_eq_nil_iff messages

/-- A violation names its elements in the middle; how it begins and ends does not depend on them. -/
theorem violationMessage_eq (v : Violation) :
    ∃ middle, Engine.pattern.violationMessage v = "pattern: Element '" ++ (middle ++ "'.") := by
  have hbegin : "pattern: Element '" = "pattern: " ++ "Element '" := rfl
  cases v with
  | missing parent child =>
      exact ⟨parent ++ "': Missing child element '" ++ child, by
        simp only [Engine.violationMessage, Violation.message, hbegin, String.append_assoc]⟩
  | unexpected parent child =>
      exact ⟨child ++ "': This element is not expected in '" ++ parent, by
        simp only [Engine.violationMessage, Violation.message, hbegin, String.append_assoc]⟩
  | misplaced parent child =>
      exact ⟨child ++ "': This element is not allowed at this position in '" ++ parent, by
        simp only [Engine.violationMessage, Violation.message, hbegin, String.append_assoc]⟩

/-- A repetition begins or ends in another way. -/
theorem isRepetition_violationMessage (v : Violation) :
    isRepetition (Engine.pattern.violationMessage v) = false := by
  obtain ⟨middle, hmiddle⟩ := violationMessage_eq v
  have hfirst : ∀ beginning ∈ repetitionBeginnings,
      beginsWith ("pattern: Element '" ++ (middle ++ "'.")) beginning = false := by
    simp [repetitionBeginnings, beginsWith, String.toList_append, List.isPrefixOf]
  have hlast : endsWith ("pattern: Element '" ++ (middle ++ "'.")) repetitionEnding = false := by
    simp [endsWith, repetitionEnding, String.toList_append, List.isSuffixOf, List.isPrefixOf]
  rw [hmiddle, isRepetition, hlast, Bool.or_false, List.any_eq_false]
  exact fun beginning hb => by simp [hfirst beginning hb]

/-- An engine has nothing to say only about a document that it accepts without a warning. -/
theorem outcomeMessages_eq_nil_iff (engine : Engine) (outcome : Except EngineError Outcome) :
    engine.outcomeMessages outcome = [] ↔ outcome = .ok (.valid []) := by
  match outcome with
  | .ok (.valid warnings) => simp [Engine.outcomeMessages]
  | .ok (.invalid []) => simp [Engine.outcomeMessages]
  | .ok (.invalid (m :: ms)) => simp [Engine.outcomeMessages]
  | .ok (.internal code) => simp [Engine.outcomeMessages]
  | .error e => cases e <;> simp [Engine.outcomeMessages]

end Engine

/-! ## Verdicts -/

/-- The document is accepted: the return code is 0. -/
def Verdict.Accepts (verdict : Verdict) : Prop :=
  ∃ reports, verdict = .answered 0 reports

theorem Verdict.outcome_eq_valid_iff (verdict : Verdict) (warnings : List Message) :
    verdict.outcome = .ok (.valid warnings) ↔
      ∃ reports, verdict = .answered 0 reports ∧ Message.ofReports reports = warnings := by
  cases verdict with
  | noContext => simp [Verdict.outcome]
  | answered code reports =>
      unfold Verdict.outcome Outcome.ofCode
      by_cases hzero : code = 0
      · simp [hzero]
      · by_cases hpos : 0 < code <;> simp [hzero, hpos]

/-- Reports without a text are no messages. -/
theorem ofReports_eq_nil_iff (reports : List (Option Report)) :
    Message.ofReports reports = [] ↔ ∀ report ∈ reports, report.bind Report.text = none := by
  rw [Message.ofReports, List.filterMap_eq_nil_iff]
  refine forall₂_congr fun report _ => ?_
  cases report with
  | none => simp [Message.ofReport?]
  | some r => cases h : r.text <;> simp [Message.ofReport?, h]

/-- The document is rejected: the return code is positive. -/
def Verdict.Rejects (verdict : Verdict) : Prop :=
  ∃ code reports, verdict = .answered code reports ∧ 0 < code

theorem Verdict.not_accepts_of_rejects {verdict : Verdict} (h : verdict.Rejects) :
    ¬ verdict.Accepts := by
  obtain ⟨code, reports, rfl, hcode⟩ := h
  rintro ⟨_, haccepted⟩
  cases haccepted
  exact absurd hcode (by decide)

/-- What an engine reports about a document, as it is handed on if no model has a say. -/
def Engine.ownMessages (engine : Engine) (reports : List (Option Report)) : List String :=
  engine.condense ((Message.ofReports reports).map engine.diagnosticMessage)

/-! ## The three ways through a check -/

namespace Validator

variable {G : Type} {b : Backend G} {v : Validator G} {root : Option Element}

/-- The model lists something: it is there, it covers the document, and it finds a violation. -/
theorem explained?_eq_some_iff {listing : List String} :
    explained? b v root = some listing ↔
      ∃ m, v.model = some m ∧ m.explain (diagnostics b v.engine) root = some listing ∧
        listing ≠ [] := by
  unfold explained?
  cases hm : v.model with
  | none => simp
  | some m =>
      cases hl : m.explain (diagnostics b v.engine) root with
      | none => simp [hl]
      | some messages =>
          cases messages with
          | nil => simp [hl]
          | cons first rest =>
              simp only [hl, Option.bind_eq_bind, Option.bind_some, List.isEmpty_cons,
                Bool.false_eq_true, if_false]
              constructor
              · intro h
                cases h
                exact ⟨m, rfl, hl, List.cons_ne_nil _ _⟩
              · rintro ⟨m', hm', hl', _⟩
                cases hm'
                rw [← hl, hl']

theorem check_of_accepted {reports : List (Option Report)}
    (h : b.judge v.grammar root = .answered 0 reports) :
    v.check b root = v.engine.ownMessages reports := by
  simp [check, messages, h, Verdict.outcome, Outcome.ofCode, Engine.outcomeMessages,
    Engine.ownMessages]

/-- A verdict that does not accept the document leaves the word to the model. -/
theorem messages_of_not_accepted (h : ¬ (b.judge v.grammar root).Accepts) :
    messages b v root (b.judge v.grammar root).outcome =
      (explained? b v root).getD
        (v.engine.outcomeMessages (b.judge v.grammar root).outcome) := by
  unfold messages
  split
  · rename_i warnings houtcome
    obtain ⟨reports, hverdict, _⟩ :=
      ((b.judge v.grammar root).outcome_eq_valid_iff warnings).mp houtcome
    exact absurd ⟨reports, hverdict⟩ h
  · rfl

theorem check_of_listed {listing : List String} (h : ¬ (b.judge v.grammar root).Accepts)
    (hl : explained? b v root = some listing) : v.check b root = v.engine.condense listing := by
  rw [check, messages_of_not_accepted h, hl, Option.getD_some]

theorem check_of_unlisted (h : ¬ (b.judge v.grammar root).Accepts)
    (hl : explained? b v root = none) :
    v.check b root =
      v.engine.condense (v.engine.outcomeMessages (b.judge v.grammar root).outcome) := by
  rw [check, messages_of_not_accepted h, hl, Option.getD_none]

/-- If the model has nothing to say, the messages of a rejection are the engine's own. -/
theorem check_of_rejected_unlisted {code : Int} {reports : List (Option Report)}
    (h : b.judge v.grammar root = .answered code reports) (hcode : 0 < code)
    (hreports : Message.ofReports reports ≠ []) (hl : explained? b v root = none) :
    v.check b root = v.engine.ownMessages reports := by
  have hrejects : (b.judge v.grammar root).Rejects := ⟨code, reports, h, hcode⟩
  have houtcome : (b.judge v.grammar root).outcome = .ok (.invalid (Message.ofReports reports)) := by
    have hne : code ≠ 0 := by omega
    simp [h, Verdict.outcome, Outcome.ofCode, hne, hcode]
  rw [check_of_unlisted (Verdict.not_accepts_of_rejects hrejects) hl, houtcome,
    Engine.ownMessages]
  cases hm : Message.ofReports reports with
  | nil => exact absurd hm hreports
  | cons first rest => rfl

end Validator

/-! ## Engines with given verdicts -/

/-- Engines that answer as told when a document is judged, and cannot do anything else. -/
def Backend.judging {G : Type} (judge : G → Option Element → Verdict) : Backend G where
  parse := fun _ => .malformed none
  compile := fun _ _ _ => .noContext
  judge := judge
  opensQuery := fun _ => false
  bindsNamespace := fun _ _ => false
  bindsVariable := fun _ _ => false
  evaluate := fun _ _ _ => .failed

/-- Diagnostics with these texts, all about the first line. -/
def Report.ofTexts (texts : List String) : List (Option Report) :=
  texts.map (fun text => some { text := some text, level := 2, line := 1 })

/-- A verdict of rejection with these diagnostics. -/
def Verdict.rejected (texts : List String) : Verdict :=
  .answered 1 (Report.ofTexts texts)

theorem Verdict.not_accepts_rejected (texts : List String) :
    ¬ (Verdict.rejected texts).Accepts := by
  rintro ⟨reports, h⟩
  cases h

/-- The model of a grammar for pairs of one `a` and one `b`, each checked on its own. The grammars
are numbered: 0 is that of the pairs, 1 that of `a` and 2 that of `b`. -/
def pairModel (ordered : Bool) : Model Nat where
  declarations :=
    [{ name := "pair"
       body := .children
        { ordered := ordered, particles := [⟨1, "a", 1, some 1⟩, ⟨2, "b", 1, some 1⟩] } },
     { name := "a", body := .isolated 1 },
     { name := "b", body := .isolated 2 }]
  roots := [0]

/-- An element of this name, text and children, in no namespace and without attributes. -/
def plain (name text : String) (children : List Element) : Element :=
  .mk { name := name } text children

end VideoCatalog
