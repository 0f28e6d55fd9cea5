import VideoCatalog.Proofs.Grammar.Explain
import VideoCatalog.Proofs.Validator.Verdict

/-!
# Telling the engines apart by their messages

How a message begins tells which engine it is about (`Engine.owns`): `Error: ` or `Warning: ` for
the engine of the schema, `pattern: ` for that of the pattern. No message begins both ways
(`Engine.owns_schema_eq_false`), so the messages of both validators can be sorted out again, if each
validator keeps to its own beginnings.

What a validator hands on is a violation of its model, the answer of an engine about an element on
its own, a diagnostic of the engine about the whole document, or what is said when the engine has no
diagnostic to show for a document that it does not accept. The first three are worded for the engine
that is asked. The last begins `Error: ` for either engine (`exists_message_of_isMute`). It comes up
when the validator is mute: no context, a failure of the engine or a rejection without a word, and
no listing of the model in its place (`IsMute`).

`messages_tell_engine_iff` puts the two together: the schema's validator always keeps to its
beginnings, the pattern's exactly when it is not mute, and the same goes for telling the part of the
schema from that of the pattern behind it in the messages of both. `Mute.speaks_for_schema` is about
a mute validator.
-/

namespace VideoCatalog

open Grammar (Model)
open Xml (Document Element)

/-! ## Beginnings -/

theorem beginsWith_append (beginning rest : String) :
    beginsWith (beginning ++ rest) beginning = true := by
  rw [beginsWith, String.toList_append, List.isPrefixOf_iff_prefix]
  exact List.prefix_append _ _

namespace Engine

/-- How the messages about an engine begin. -/
def beginnings : Engine → List String
  | .schema => ["Error: ", "Warning: "]
  | .pattern => ["pattern: "]

/-- Whether a message begins like one about this engine. -/
def owns (engine : Engine) (message : String) : Bool :=
  engine.beginnings.any (beginsWith message)

theorem owns_append {engine : Engine} {beginning : String} (h : beginning ∈ engine.beginnings)
    (rest : String) : engine.owns (beginning ++ rest) = true :=
  List.any_eq_true.mpr ⟨beginning, h, beginsWith_append beginning rest⟩

/-- A message about the one engine is not about the other. -/
theorem owns_schema_eq_false {message : String} (h : Engine.pattern.owns message = true) :
    Engine.schema.owns message = false := by
  obtain ⟨beginning, hmem, hbegins⟩ := List.any_eq_true.mp h
  obtain rfl := List.mem_singleton.mp hmem
  obtain ⟨rest, hrest⟩ := List.isPrefixOf_iff_prefix.mp hbegins
  have hother : ∀ other ∈ Engine.schema.beginnings, beginsWith message other = false := by
    intro other hother
    rw [beginsWith, ← hrest]
    have hcases : other = "Error: " ∨ other = "Warning: " := by simpa [beginnings] using hother
    rcases hcases with rfl | rfl <;> rfl
  exact List.any_eq_false.mpr fun other hmem => by simp [hother other hmem]

theorem owns_pattern_eq_false {message : String} (h : Engine.schema.owns message = true) :
    Engine.pattern.owns message = false := by
  cases hpattern : Engine.pattern.owns message with
  | false => rfl
  | true =>
      rw [owns_schema_eq_false hpattern] at h
      exact nomatch h

/-! ## Where messages come from -/

theorem owns_violationMessage (engine : Engine) (v : Grammar.Violation) :
    engine.owns (engine.violationMessage v) = true := by
  cases engine with
  | schema => exact owns_append (by decide) v.message
  | pattern => exact owns_append (by decide) v.message

theorem owns_diagnosticMessage (engine : Engine) (m : Message) :
    engine.owns (engine.diagnosticMessage m) = true := by
  cases engine with
  | schema =>
      have hlabel : m.severity.label ++ ": " ∈ Engine.schema.beginnings := by
        cases m.severity <;> decide
      exact owns_append hlabel m.text
  | pattern => exact owns_append (by decide) m.text

/-- Dropping repetitions adds nothing. -/
theorem mem_of_mem_condense {engine : Engine} {messages : List String} {message : String}
    (h : message ∈ engine.condense messages) : message ∈ messages := by
  cases engine with
  | schema => exact h
  | pattern =>
      have hmem : message ∈ collapse messages := h
      unfold collapse at hmem
      dsimp only at hmem
      split at hmem
      · exact hmem
      · exact (List.mem_filter.mp hmem).1

/-- An engine asked about an element on its own answers in its own words. -/
theorem owns_of_mem_isolatedMessages {engine : Engine} {outcome : Except EngineError Outcome}
    {messages : List String} (h : engine.isolatedMessages outcome = some messages)
    {message : String} (hmem : message ∈ messages) : engine.owns message = true := by
  have hworded : ∀ ms : List Message, message ∈ ms.map engine.diagnosticMessage →
      engine.owns message = true := by
    intro ms hms
    obtain ⟨m, -, rfl⟩ := List.mem_map.mp hms
    exact engine.owns_diagnosticMessage m
  match outcome with
  | .ok (.valid warnings) =>
      obtain rfl := Option.some.inj h
      exact hworded _ hmem
  | .ok (.invalid []) => exact nomatch h
  | .ok (.invalid (m :: ms)) =>
      obtain rfl := Option.some.inj h
      exact hworded _ hmem
  | .ok (.internal _) => exact nomatch h
  | .error _ => exact nomatch h

end Engine

/-- The engine does not accept the document and shows no diagnostic for it. -/
inductive Verdict.IsMute : Verdict → Prop
  | noContext : IsMute .noContext
  | failed {code : Int} {reports : List (Option Report)} :
      code < 0 → IsMute (.answered code reports)
  | wordless {code : Int} {reports : List (Option Report)} :
      0 < code → (∀ report ∈ reports, report.bind Report.text = none) →
        IsMute (.answered code reports)

theorem Verdict.IsMute.not_accepts {verdict : Verdict} (h : verdict.IsMute) :
    ¬ verdict.Accepts := by
  rintro ⟨reports, rfl⟩
  cases h with
  | failed hcode => exact absurd hcode (by decide)
  | wordless hcode _ => exact absurd hcode (by decide)

/-- An engine without a diagnostic has this said about it, whichever it is. -/
theorem Verdict.IsMute.outcomeMessages {verdict : Verdict} (h : verdict.IsMute) (engine : Engine) :
    ∃ message, engine.outcomeMessages verdict.outcome = [message] ∧
      Engine.schema.owns message = true := by
  cases h with
  | noContext => exact ⟨_, rfl, rfl⟩
  | @failed code reports hcode =>
      have houtcome : (Verdict.answered code reports).outcome = .ok (.internal code) := by
        simp [Verdict.outcome, Outcome.ofCode, Int.ne_of_lt hcode,
          Int.not_lt.mpr (Int.le_of_lt hcode)]
      refine ⟨"Error: internal validation failure (code " ++ toString code ++ ")", ?_, ?_⟩
      · rw [houtcome]
        rfl
      · have hbegin : "Error: internal validation failure (code " =
            "Error: " ++ "internal validation failure (code " := rfl
        rw [hbegin, String.append_assoc, String.append_assoc]
        exact Engine.owns_append (by decide) _
  | @wordless code reports hcode hreports =>
      have hnone : Message.ofReports reports = [] := (ofReports_eq_nil_iff reports).mpr hreports
      have houtcome : (Verdict.answered code reports).outcome = .ok (.invalid []) := by
        simp [Verdict.outcome, Outcome.ofCode, Int.ne_of_gt hcode, hcode, hnone]
      exact ⟨_, by rw [houtcome]; rfl, rfl⟩

/-- Any other engine has something said about it in its own words. -/
theorem Verdict.owns_of_mem_outcomeMessages {verdict : Verdict} (h : ¬ verdict.IsMute)
    {engine : Engine} {message : String} (hmem : message ∈ engine.outcomeMessages verdict.outcome) :
    engine.owns message = true := by
  cases verdict with
  | noContext => exact absurd .noContext h
  | answered code reports =>
      have hmessages : engine.outcomeMessages (Verdict.answered code reports).outcome =
          (Message.ofReports reports).map engine.diagnosticMessage := by
        rcases Int.lt_trichotomy code 0 with hlt | rfl | hgt
        · exact absurd (.failed hlt) h
        · rfl
        · have houtcome : (Verdict.answered code reports).outcome =
              .ok (.invalid (Message.ofReports reports)) := by
            simp [Verdict.outcome, Outcome.ofCode, Int.ne_of_gt hgt, hgt]
          rw [houtcome]
          cases hreports : Message.ofReports reports with
          | nil => exact absurd (.wordless hgt ((ofReports_eq_nil_iff reports).mp hreports)) h
          | cons first rest => rfl
      rw [hmessages] at hmem
      obtain ⟨m, -, rfl⟩ := List.mem_map.mp hmem
      exact engine.owns_diagnosticMessage m

namespace Validator

variable {G : Type} {b : Backend G} {v : Validator G} {root : Option Element}

/-- The listing of a model is in the words of the engine that is asked. -/
theorem owns_of_mem_explain {engine : Engine} {m : Model G} {listing : List String}
    (h : m.explain (diagnostics b engine) root = some listing) {message : String}
    (hmem : message ∈ listing) : engine.owns message = true := by
  cases root with
  | none => exact nomatch h
  | some root =>
      rw [Model.eq_flatMap_account_of_explain h] at hmem
      obtain ⟨o, -, haccount⟩ := List.mem_flatMap.mp hmem
      unfold Model.account Model.account? at haccount
      cases hbody : m.body o.index with
      | unsupported => simp [hbody] at haccount
      | children content =>
          simp only [hbody, Option.getD_some] at haccount
          obtain ⟨violation, -, rfl⟩ := List.mem_map.mp haccount
          exact engine.owns_violationMessage violation
      | isolated grammar =>
          simp only [hbody] at haccount
          cases hanswer : (diagnostics b engine).isolated grammar o.element with
          | none => simp [hanswer] at haccount
          | some answer =>
              obtain ⟨messages, hmessages, rfl⟩ := Option.map_eq_some_iff.mp hanswer
              rw [hanswer] at haccount
              exact Engine.owns_of_mem_isolatedMessages hmessages
                (Engine.mem_of_mem_condense haccount)

/-! ## A validator without words of its own -/

/-- The engine shows no diagnostic for a document that it does not accept, and the model lists
nothing in its place. -/
structure IsMute (b : Backend G) (v : Validator G) (root : Option Element) : Prop where
  verdict : (b.judge v.grammar root).IsMute
  unlisted : ∀ m listing, v.model = some m →
    m.explain (diagnostics b v.engine) root = some listing → listing = []

theorem explained?_eq_none_iff :
    explained? b v root = none ↔
      ∀ m listing, v.model = some m → m.explain (diagnostics b v.engine) root = some listing →
        listing = [] := by
  constructor
  · intro hnone m listing hmodel hlisting
    refine Classical.byContradiction fun hne => ?_
    rw [explained?_eq_some_iff.mpr ⟨m, hmodel, hlisting, hne⟩] at hnone
    exact nomatch hnone
  · intro h
    cases hl : explained? b v root with
    | none => rfl
    | some listing =>
        obtain ⟨m, hmodel, hlisting, hne⟩ := explained?_eq_some_iff.mp hl
        exact absurd (h m listing hmodel hlisting) hne

/-- What a mute validator says begins like a message about the schema. -/
theorem exists_message_of_isMute (h : v.IsMute b root) :
    ∃ message, v.check b root = [message] ∧ Engine.schema.owns message = true := by
  obtain ⟨message, hmessage, howns⟩ := h.verdict.outcomeMessages v.engine
  refine ⟨message, ?_, howns⟩
  rw [check_of_unlisted h.verdict.not_accepts (explained?_eq_none_iff.mpr h.unlisted),
    hmessage]
  cases v.engine with
  | schema => rfl
  | pattern =>
      -- A single message stays, repetition or not.
      have hkept : collapse [message] = [message] := by
        unfold collapse
        cases hrepeats : isRepetition message <;> simp [hrepeats]
      exact hkept

/-- Any other validator keeps to the words of its engine. -/
theorem owns_of_mem_check (h : ¬ v.IsMute b root) {message : String}
    (hmem : message ∈ v.check b root) : v.engine.owns message = true := by
  by_cases haccepts : (b.judge v.grammar root).Accepts
  · obtain ⟨reports, hverdict⟩ := haccepts
    rw [check_of_accepted hverdict] at hmem
    obtain ⟨m, -, rfl⟩ := List.mem_map.mp (Engine.mem_of_mem_condense hmem)
    exact v.engine.owns_diagnosticMessage m
  · cases hl : explained? b v root with
    | some listing =>
        obtain ⟨m, -, hlisting, -⟩ := explained?_eq_some_iff.mp hl
        rw [check_of_listed haccepts hl] at hmem
        exact owns_of_mem_explain hlisting (Engine.mem_of_mem_condense hmem)
    | none =>
        have hverdict : ¬ (b.judge v.grammar root).IsMute := fun hmute =>
          h ⟨hmute, explained?_eq_none_iff.mp hl⟩
        rw [check_of_unlisted haccepts hl] at hmem
        exact Verdict.owns_of_mem_outcomeMessages hverdict (Engine.mem_of_mem_condense hmem)

theorem owns_schema_of_mem_check (hengine : v.engine = .schema) {message : String}
    (hmem : message ∈ v.check b root) : Engine.schema.owns message = true := by
  by_cases h : v.IsMute b root
  · obtain ⟨said, hsaid, howns⟩ := exists_message_of_isMute h
    rw [hsaid] at hmem
    rwa [List.mem_singleton.mp hmem]
  · rw [← hengine]
    exact owns_of_mem_check h hmem

theorem owns_pattern_iff (hengine : v.engine = .pattern) :
    (∀ message ∈ v.check b root, Engine.pattern.owns message = true) ↔ ¬ v.IsMute b root := by
  constructor
  · intro howns h
    obtain ⟨said, hsaid, hschema⟩ := exists_message_of_isMute h
    have hpattern := howns said (by rw [hsaid]; exact List.mem_singleton_self said)
    rw [Engine.owns_schema_eq_false hpattern] at hschema
    exact nomatch hschema
  · intro h message hmem
    rw [← hengine]
    exact owns_of_mem_check h hmem

end Validator

/-- Two lists in the words of one engine each are sorted out of the two together, exactly if the
second one is. -/
theorem sorted_out_iff {first second : List String}
    (hfirst : ∀ message ∈ first, Engine.schema.owns message = true) :
    ((first ++ second).filter Engine.schema.owns = first ∧
        (first ++ second).filter Engine.pattern.owns = second) ↔
      ∀ message ∈ second, Engine.pattern.owns message = true := by
  have hown : first.filter Engine.schema.owns = first := List.filter_eq_self.mpr hfirst
  have hother : first.filter Engine.pattern.owns = [] :=
    List.filter_eq_nil_iff.mpr fun message hmem => by
      simp [Engine.owns_pattern_eq_false (hfirst message hmem)]
  rw [List.filter_append, List.filter_append, hown, hother, List.nil_append,
    List.append_right_eq_self, List.filter_eq_self]
  refine and_iff_right_of_imp fun hsecond => List.filter_eq_nil_iff.mpr fun message hmem => ?_
  simp [Engine.owns_schema_eq_false (hsecond message hmem)]

variable {G : Type}

/-- The messages of the schema's validator begin like messages about its engine. Those of the
pattern's do so exactly if the validator is not mute. The violations by both grammars are those by
the schema and, behind them, those by the pattern, and exactly then their beginnings tell the two
parts apart. -/
theorem messages_tell_engine_iff (b : Backend G) :
    (∀ (v : Validator G) (root : Option Element), v.engine = .schema →
      ∀ message ∈ v.check b root, Engine.schema.owns message = true) ∧
    (∀ (v : Validator G) (root : Option Element), v.engine = .pattern →
      ((∀ message ∈ v.check b root, Engine.pattern.owns message = true) ↔
        ¬ v.IsMute b root)) ∧
    (∀ (g : GrammarSet G) (d : Document),
      g.check b .both d = g.schema.check b d.root ++ g.pattern.check b d.root) ∧
    (∀ (g : GrammarSet G) (d : Document), g.schema.engine = .schema → g.pattern.engine = .pattern →
      (((g.check b .both d).filter Engine.schema.owns = g.schema.check b d.root ∧
          (g.check b .both d).filter Engine.pattern.owns = g.pattern.check b d.root) ↔
        ¬ g.pattern.IsMute b d.root)) := by
  refine ⟨fun v root hengine message hmem => ?_, fun v root hengine => ?_, fun _ _ => rfl,
    fun g d hschema hpattern => ?_⟩
  · exact Validator.owns_schema_of_mem_check hengine hmem
  · exact Validator.owns_pattern_iff hengine
  · rw [← Validator.owns_pattern_iff hpattern]
    exact sorted_out_iff fun message hmem => Validator.owns_schema_of_mem_check hschema hmem

/-! ## Pairs and strangers -/

namespace Mute

/-- No document can be judged by the schema, and the engine of the pattern rejects every document
without a word. -/
def backend : Backend Nat :=
  .judging (fun grammar _ =>
    match grammar with
    | 0 => .noContext
    | 3 => .answered 1 []
    | _ => .answered 0 [])

def grammars : GrammarSet Nat where
  schema := { engine := .schema, grammar := 0, model := none }
  pattern := { engine := .pattern, grammar := 3, model := some (pairModel true) }

/-- A pair without its second part, which the model knows to be missing. -/
def pair : Document where
  root := some (plain "pair" "" [plain "a" "1" []])

/-- The root is none that the model knows. -/
def stranger : Option Element :=
  some (plain "stranger" "" [])

theorem explain_pair :
    (pairModel true).explain (Validator.diagnostics backend .pattern) pair.root =
      some ["pattern: Element 'pair': Missing child element 'b'."] := by
  rfl

theorem not_isMute_pair : ¬ grammars.pattern.IsMute backend pair.root := fun h =>
  absurd (h.unlisted (pairModel true) _ rfl explain_pair) (by decide)

/-- What the model finds missing is told apart from what is said of the schema. -/
theorem messages_tell_engine_pair :
    ¬ grammars.pattern.IsMute backend pair.root ∧
      grammars.check backend .both pair =
        ["Error: validation context could not be created",
          "pattern: Element 'pair': Missing child element 'b'."] ∧
      (grammars.check backend .both pair).filter Engine.schema.owns =
        ["Error: validation context could not be created"] ∧
      (grammars.check backend .both pair).filter Engine.pattern.owns =
        ["pattern: Element 'pair': Missing child element 'b'."] := by
  obtain ⟨-, -, hboth, hsorted⟩ := messages_tell_engine_iff backend
  obtain ⟨hschema, hpattern⟩ := (hsorted grammars pair rfl rfl).mpr not_isMute_pair
  exact ⟨not_isMute_pair, (hboth grammars pair).trans rfl,
    hschema.trans rfl, hpattern.trans rfl⟩

/-- A mute validator of the pattern speaks like one of the schema. -/
theorem speaks_for_schema :
    ¬ ∀ (b : Backend Nat) (v : Validator Nat) (root : Option Element), v.engine = .pattern →
        ∀ message ∈ v.check b root, Engine.pattern.owns message = true := by
  intro h
  have hsaid : grammars.pattern.check backend stranger =
      ["Error: document does not match the grammar"] := by
    rfl
  have howns := h backend grammars.pattern stranger rfl _ (hsaid ▸ List.mem_singleton_self _)
  exact absurd howns (by decide)

end Mute

end VideoCatalog
