import VideoCatalog.GrammarSet
import VideoCatalog.Proofs.Validator.Check

/-!
# The verdict is the engine's verdict

A validator may replace, shorten and reword what its engine says, but it never turns a rejection into
silence. `check_eq_nil_iff` says that the list of violations is empty exactly when the engine returned
code 0 and reported no message; a report without a text is none. The three ways through a check each
keep a list that is not empty: the listing of the model takes over only if it is not empty, an engine
that does not accept always has something said about it, and `collapse` never empties a list.

For both grammars together the violations of the schema come first, and a text that is no well-formed
document is one violation under every choice of grammar.
-/

namespace VideoCatalog

open Xml (Document Element)

variable {G : Type}

namespace Validator

variable {b : Backend G} {v : Validator G} {root : Option Element}

/-- An engine that does not accept a document never leaves its validator without a message. -/
theorem check_ne_nil_of_not_accepted (h : ¬ (b.judge v.grammar root).Accepts) :
    v.check b root ≠ [] := by
  cases hl : explained? b v root with
  | some listing =>
      obtain ⟨_, _, _, hne⟩ := explained?_eq_some_iff.mp hl
      rw [check_of_listed h hl]
      exact mt (v.engine.condense_eq_nil_iff listing).mp hne
  | none =>
      rw [check_of_unlisted h hl, Ne, Engine.condense_eq_nil_iff,
        Engine.outcomeMessages_eq_nil_iff, Verdict.outcome_eq_valid_iff]
      rintro ⟨reports, hverdict, _⟩
      exact h ⟨reports, hverdict⟩

theorem check_eq_nil_iff :
    v.check b root = [] ↔
      ∃ reports, b.judge v.grammar root = .answered 0 reports ∧
        ∀ report ∈ reports, report.bind Report.text = none := by
  constructor
  · intro hnil
    obtain ⟨reports, hverdict⟩ : (b.judge v.grammar root).Accepts :=
      Classical.byContradiction fun h => check_ne_nil_of_not_accepted h hnil
    refine ⟨reports, hverdict, ?_⟩
    rw [check_of_accepted hverdict, Engine.ownMessages, Engine.condense_eq_nil_iff,
      List.map_eq_nil_iff] at hnil
    exact (ofReports_eq_nil_iff reports).mp hnil
  · rintro ⟨reports, hverdict, hnone⟩
    rw [check_of_accepted hverdict, Engine.ownMessages, (ofReports_eq_nil_iff reports).mpr hnone,
      List.map_nil]
    exact (v.engine.condense_eq_nil_iff []).mpr rfl

end Validator

namespace GrammarSet

variable {b : Backend G} {g : GrammarSet G} {text : String}

theorem validate_of_document {d : Document} (h : b.document text = .ok d) (choice : GrammarChoice) :
    g.validate b choice text = { errors := g.check b choice d } := by
  simp [validate, h]

theorem validate_of_malformed {e : EngineError} (h : b.document text = .error e)
    (choice : GrammarChoice) : g.validate b choice text = .malformed e := by
  simp [validate, h]

/-- Both grammars together accept what each of them accepts. -/
theorem isValid_both_iff :
    (g.validate b .both text).isValid = true ↔
      (g.validate b .schema text).isValid = true ∧ (g.validate b .pattern text).isValid = true := by
  cases h : b.document text with
  | ok d => simp [validate_of_document h, check, ValidationResult.isValid]
  | error e => simp [validate_of_malformed h, ValidationResult.isValid, ValidationResult.malformed]

end GrammarSet

/-- A document is reported valid exactly when its engines say so, whatever the models have to say. -/
theorem verdict_is_engines (b : Backend G) :
    (∀ (v : Validator G) (root : Option Element),
      v.check b root = [] ↔
        ∃ reports, b.judge v.grammar root = .answered 0 reports ∧
          ∀ report ∈ reports, report.bind Report.text = none) ∧
    (∀ (v : Validator G) (root : Option Element),
      ¬ (b.judge v.grammar root).Accepts → v.check b root ≠ []) ∧
    (∀ (g : GrammarSet G) (text : String) (d : Document), b.document text = .ok d →
      (g.validate b .schema text).errors = g.schema.check b d.root ∧
        (g.validate b .pattern text).errors = g.pattern.check b d.root ∧
        (g.validate b .both text).errors =
          (g.validate b .schema text).errors ++ (g.validate b .pattern text).errors) ∧
    (∀ (g : GrammarSet G) (text : String) (e : EngineError), b.document text = .error e →
      ∀ choice, (g.validate b choice text).errors = ["well-formedness error: " ++ e.message]) ∧
    (∀ (g : GrammarSet G) (text : String),
      (g.validate b .both text).isValid = true ↔
        (g.validate b .schema text).isValid = true ∧
          (g.validate b .pattern text).isValid = true) := by
  refine ⟨fun _ _ => Validator.check_eq_nil_iff,
    fun _ _ h => Validator.check_ne_nil_of_not_accepted h, ?_, ?_,
    fun _ _ => GrammarSet.isValid_both_iff⟩
  · intro g text d h
    simp [GrammarSet.validate_of_document h, GrammarSet.check]
  · intro g text e h choice
    rw [GrammarSet.validate_of_malformed h]
    rfl

namespace Accepted

/-- Engines that know one document, about which the schema engine reports nothing worth a word and
the pattern engine cannot be asked. -/
def backend : Backend Nat :=
  { Backend.judging (fun grammar _ => if grammar = 0 then .answered 0 [none] else .noContext) with
    parse := fun text =>
      if text = "pair" then .document { root := some (plain "pair" "" []) } else .malformed none }

def grammars : GrammarSet Nat where
  schema := { engine := .schema, grammar := 0, model := some (pairModel true) }
  pattern := { engine := .pattern, grammar := 3, model := none }

/-- The schema has nothing against an empty pair, although its model would; a validator whose engine
is out of order has. -/
theorem verdict_is_engines_pair :
    grammars.schema.check backend (some (plain "pair" "" [])) = [] ∧
      grammars.pattern.check backend (some (plain "pair" "" [])) ≠ [] ∧
      (grammars.validate backend .both "pair").errors =
        (grammars.validate backend .schema "pair").errors ++
          (grammars.validate backend .pattern "pair").errors ∧
      (grammars.validate backend .both "").errors =
        ["well-formedness error: document could not be parsed"] := by
  obtain ⟨hnil, hne, hboth, hmalformed, _⟩ := verdict_is_engines backend
  refine ⟨(hnil grammars.schema _).mpr ⟨[none], rfl, by decide⟩, hne grammars.pattern _ ?_,
    (hboth grammars "pair" _ rfl).2.2, ?_⟩
  · rintro ⟨reports, h⟩
    cases h
  · exact hmalformed grammars "" (.malformed "document could not be parsed") rfl .both

end Accepted

end VideoCatalog
