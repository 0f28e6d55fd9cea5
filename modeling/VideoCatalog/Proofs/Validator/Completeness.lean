import VideoCatalog.Proofs.Grammar.Explain
import VideoCatalog.Proofs.Validator.Check

/-!
# What the pattern engine's validator keeps of a listing

When the pattern engine does not accept a document, its validator hands on the listing of the model
without the repetitions. The listing is the accounts of the reached elements one after another, and
dropping acts on each account for itself, once it is known whether the listing holds anything else:
`check_eq_flatMap_contribution` says what each element contributes.

* The account of an element-only element goes through whole.
* The account of an element checked on its own has been through `collapse` once already, where an
  account made of repetitions only was kept whole. In the listing it meets the messages of other
  elements, and is lost if one of those is no repetition. So an element that has messages contributes
  one exactly when one of them is no repetition, or nothing in the whole listing is anything else.

`check_not_complete` is the loss: a pair whose `a` is only said to have failed, and whose `b` holds no
number, is reported for its `b` alone.
-/

namespace VideoCatalog

open Grammar (Model Occurrence)
open Xml (Element)

/-! ## Contributions -/

/-- What goes through of the account of one element, as part of a listing. -/
def contribution (listing account : List String) : List String :=
  if listing.all isRepetition then account else account.filter (fun m => !isRepetition m)

theorem collapse_eq_contribution (listing : List String) :
    collapse listing = contribution listing listing := by
  unfold collapse contribution
  by_cases h : listing.all isRepetition
  · have hempty : listing.filter (fun m => !isRepetition m) = [] :=
      List.filter_eq_nil_iff.mpr (fun m hm => by simp [List.all_eq_true.mp h m hm])
    simp only [hempty, h, List.isEmpty_nil, if_true]
  · have hkept : (listing.filter (fun m => !isRepetition m)).isEmpty = false := by
      rw [List.isEmpty_eq_false_iff]
      intro hnil
      refine h (List.all_eq_true.mpr (fun m hm => ?_))
      simpa using List.filter_eq_nil_iff.mp hnil m hm
    simp only [hkept, h, Bool.false_eq_true, if_false]

/-- Of a listing put together from parts, each part contributes for itself. -/
theorem contribution_flatMap {α : Type} (listing : List String) (f : α → List String)
    (parts : List α) :
    contribution listing (parts.flatMap f) =
      parts.flatMap (fun part => contribution listing (f part)) := by
  unfold contribution
  split
  · rfl
  · exact List.filter_flatMap

/-- Nothing is lost of an account without repetitions. -/
theorem contribution_eq_self {listing account : List String}
    (h : ∀ m ∈ account, isRepetition m = false) : contribution listing account = account := by
  unfold contribution
  split
  · rfl
  · exact List.filter_eq_self.mpr (fun m hm => by simp [h m hm])

theorem contribution_ne_nil_iff {listing account : List String} (hne : account ≠ []) :
    contribution listing account ≠ [] ↔
      (∃ m ∈ account, isRepetition m = false) ∨ ∀ m ∈ listing, isRepetition m = true := by
  unfold contribution
  by_cases h : listing.all isRepetition
  · simp only [h, if_true]
    exact iff_of_true hne (Or.inr (List.all_eq_true.mp h))
  · have hother : ¬ ∀ m ∈ listing, isRepetition m = true := fun hall =>
      h (List.all_eq_true.mpr hall)
    simp only [h, Bool.false_eq_true, if_false, hother, or_false]
    simp [List.filter_eq_nil_iff]

namespace Validator

variable {G : Type}

/-- The account of an element-only element holds no repetitions. -/
theorem isRepetition_of_mem_account {b : Backend G} {m : Model G} {o : Occurrence}
    {content : Grammar.DeclaredContent} (hb : m.body o.index = .children content)
    {message : String} (h : message ∈ m.account (diagnostics b .pattern) o) :
    isRepetition message = false := by
  simp only [Model.account, Model.account?, hb, Option.getD_some, List.mem_map] at h
  obtain ⟨violation, _, rfl⟩ := h
  exact Engine.isRepetition_violationMessage violation

/-- What the validator of the pattern engine hands on of a listing, element by element. -/
theorem check_eq_flatMap_contribution (b : Backend G) (v : Validator G) (m : Model G)
    (root : Element) (listing : List String) (hengine : v.engine = .pattern)
    (hmodel : v.model = some m) (hverdict : ¬ (b.judge v.grammar (some root)).Accepts)
    (hlisting : m.explain (diagnostics b .pattern) (some root) = some listing)
    (hne : listing ≠ []) :
    v.check b (some root) =
        (m.reached root).flatMap
          (fun o => contribution listing (m.account (diagnostics b .pattern) o)) ∧
      (∀ o content, m.Reached root o → m.body o.index = .children content →
        contribution listing (m.account (diagnostics b .pattern) o) =
          m.account (diagnostics b .pattern) o) ∧
      (∀ o grammar answer, m.Reached root o → m.body o.index = .isolated grammar →
        (diagnostics b .pattern).isolated grammar o.element = some answer → answer ≠ [] →
          (contribution listing (m.account (diagnostics b .pattern) o) ≠ [] ↔
            (∃ message ∈ answer, isRepetition message = false) ∨
              ∀ message ∈ listing, isRepetition message = true)) := by
  refine ⟨?_, ?_, ?_⟩
  · have hl : explained? b v (some root) = some listing :=
      explained?_eq_some_iff.mpr ⟨m, hmodel, by rw [hengine]; exact hlisting, hne⟩
    have hsum : listing = (m.reached root).flatMap (m.account (diagnostics b .pattern)) :=
      Model.eq_flatMap_account_of_explain hlisting
    calc v.check b (some root)
        = collapse listing := by rw [check_of_listed hverdict hl, hengine]; rfl
      _ = contribution listing
            ((m.reached root).flatMap (m.account (diagnostics b .pattern))) := by
          rw [collapse_eq_contribution, ← hsum]
      _ = _ := contribution_flatMap listing _ _
  · intro o content _ hb
    exact contribution_eq_self (fun _ hm => isRepetition_of_mem_account hb hm)
  · intro o grammar answer _ hb hanswer hsome
    have haccount : m.account (diagnostics b .pattern) o = answer := by
      simp [Model.account, Model.account?, hb, hanswer]
    rw [haccount]
    exact contribution_ne_nil_iff hsome

/-! ## The loss -/

namespace Follow

/-- The engine says no more of an `a` than that it failed, and finds a fault in every `b`. -/
def backend : Backend Nat :=
  .judging (fun grammar _ =>
    match grammar with
    | 0 => .rejected ["Element pair failed to validate content"]
    | 1 => .rejected ["Element a failed to validate content"]
    | _ => .rejected ["Type int doesn't allow value 'y'", "Error validating datatype int"])

def validator : Validator Nat where
  engine := .pattern
  grammar := 0
  model := some (pairModel false)

/-- A pair of which neither part holds a number. -/
def pair : Element :=
  plain "pair" "" [plain "a" "x" [], plain "b" "y" []]

/-- The listing of the pair has a message about each part. -/
def listing : List String :=
  ["pattern: Element a failed to validate content", "pattern: Type int doesn't allow value 'y'"]

theorem explain_pair :
    (pairModel false).explain (diagnostics backend .pattern) (some pair) = some listing := by
  rfl

theorem isRepetition_a :
    isRepetition "pattern: Element a failed to validate content" = true := by
  rfl

theorem isRepetition_b : isRepetition "pattern: Type int doesn't allow value 'y'" = false := by
  rfl

/-- The answer about the first part on its own is kept, although it is a repetition. -/
theorem isolated_a :
    (diagnostics backend .pattern).isolated 1 (plain "a" "x" []) =
      some ["pattern: Element a failed to validate content"] := by
  rfl

/-- The first part of the pair is reached. -/
theorem reached_a : (pairModel false).Reached pair ⟨[0], plain "a" "x" [], 1⟩ :=
  ⟨0, rfl, .child .self ⟨_, _, rfl, rfl, rfl, rfl⟩⟩

/-- The account of the first part is lost. -/
theorem check_eq_flatMap_contribution_pair :
    (pairModel false).explain (diagnostics backend .pattern) (some pair) = some listing ∧
      (diagnostics backend .pattern).isolated 1 (plain "a" "x" []) =
        some ["pattern: Element a failed to validate content"] ∧
      contribution listing
        ((pairModel false).account (diagnostics backend .pattern)
          ⟨[0], plain "a" "x" [], 1⟩) = [] := by
  have hiff := (check_eq_flatMap_contribution backend validator (pairModel false) pair listing rfl
    rfl (Verdict.not_accepts_rejected _) explain_pair (by decide)).2.2 _ _ _ reached_a rfl
      isolated_a (by decide)
  refine ⟨explain_pair, isolated_a, Classical.byContradiction fun h => ?_⟩
  have hreported := hiff.mp h
  simp only [listing, List.mem_cons, List.not_mem_nil, or_false, exists_eq_left, forall_eq_or_imp,
    forall_eq, isRepetition_a, isRepetition_b] at hreported
  simp at hreported

/-- Not every element that has messages contributes one. -/
theorem check_not_complete :
    ¬ ∀ (b : Backend Nat) (v : Validator Nat) (m : Model Nat) (root : Element)
        (listing : List String),
      v.engine = .pattern → v.model = some m →
      ¬ (b.judge v.grammar (some root)).Accepts →
      m.explain (diagnostics b .pattern) (some root) = some listing → listing ≠ [] →
        (∀ o content, m.Reached root o → m.body o.index = .children content →
          ∀ message ∈ m.account (diagnostics b .pattern) o, message ∈ v.check b (some root)) ∧
        (∀ o grammar answer, m.Reached root o → m.body o.index = .isolated grammar →
          (diagnostics b .pattern).isolated grammar o.element = some answer → answer ≠ [] →
            ∃ message ∈ answer, message ∈ v.check b (some root)) := by
  intro h
  obtain ⟨message, hmem, hcheck⟩ := (h backend validator (pairModel false) pair listing rfl rfl
    (Verdict.not_accepts_rejected _) explain_pair (by decide)).2 _ _ _ reached_a rfl isolated_a
      (by decide)
  have hreported : validator.check backend (some pair) =
      ["pattern: Type int doesn't allow value 'y'"] := by
    have hlisted : explained? backend validator (some pair) = some listing :=
      explained?_eq_some_iff.mpr ⟨_, rfl, explain_pair, by decide⟩
    rw [check_of_listed (Verdict.not_accepts_rejected _) hlisted]
    simp [validator, Engine.condense, collapse, listing, isRepetition_a, isRepetition_b]
  rw [hreported] at hcheck
  rw [List.mem_singleton] at hmem hcheck
  exact absurd (hmem.symm.trans hcheck) (by decide)

end Follow

end Validator

end VideoCatalog
