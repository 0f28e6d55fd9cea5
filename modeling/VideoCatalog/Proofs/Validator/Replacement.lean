import VideoCatalog.Proofs.Grammar.Locality
import VideoCatalog.Proofs.Validator.Check

/-!
# What the listing of a model stands in for

A model looks at the names of element children. Stray character data, an attribute, a name in another
namespace are faults that only the engine reports, and the listing of the model takes the place of the
engine's messages as soon as it is not empty. `check_reports_iff` says when such a fault is still to be
seen in the result, that is, when the result is the engine's own list or another one than that of the
document in which the fault is mended:

  * the listing does not change when the fault is mended (`Model.explain_eq_of_differAt`), so
    a listing that takes over is the same for both documents;
  * hence the fault is to be seen exactly when no listing takes over, or the one that does is the
    engine's own list all the same.

`check_hides_stray_text` is a pair with stray text and a missing child of which only the missing child
is reported.
-/

namespace VideoCatalog

open Grammar (DeclaredContent DifferAt Model Occurrence SameChildren)
open Xml (Attribute Element Tag)

/-- A fault of one element that its model does not look at, mended: its character data are taken
away, or one of its attributes, or its name is moved to another namespace. -/
inductive Mended : Element → Element → Prop
  | ofText {tag : Tag} {text : String} {children : List Element} :
      Text.trim text ≠ "" → Mended (.mk tag text children) (.mk tag "" children)
  | ofAttribute {tag : Tag} {text : String} {children : List Element} {a : Attribute} :
      a ∈ tag.attributes →
        Mended (.mk tag text children)
          (.mk { tag with attributes := tag.attributes.erase a } text children)
  | ofName {tag : Tag} {text : String} {children : List Element} {uri qualifier : Option String} :
      tag.uri ≠ uri →
        Mended (.mk tag text children)
          (.mk { tag with uri := uri, qualifier := qualifier } text children)

/-- None of this is anything that a model looks at. -/
theorem Mended.sameChildren {e e' : Element} (h : Mended e e') : SameChildren e e' := by
  cases h with
  | ofText _ => exact ⟨rfl, rfl⟩
  | ofAttribute _ => exact ⟨rfl, rfl⟩
  | ofName _ => exact ⟨rfl, rfl⟩

namespace Validator

variable {G : Type} {b : Backend G} {v : Validator G} {m : Model G} {root root' : Element}
  {o : Occurrence} {content : DeclaredContent}

/-- A listing does not tell a document from the same one with a fault mended. -/
theorem explain_eq_of_mended (hreached : m.Reached root o)
    (hbody : m.body o.index = .children content) (hmended : DifferAt Mended o.path root root') (d : Grammar.Diagnostics G) :
    m.explain d (some root) = m.explain d (some root') :=
  m.explain_eq_of_differAt d hreached hbody (hmended.mono fun _ _ h => h.sameChildren)

/-- A listing that takes over for the one document takes over for the other. -/
theorem check_eq_of_mended (hmodel : v.model = some m) (hreached : m.Reached root o)
    (hbody : m.body o.index = .children content) (hmended : DifferAt Mended o.path root root')
    (hverdict : ¬ (b.judge v.grammar (some root)).Accepts)
    (hverdict' : ¬ (b.judge v.grammar (some root')).Accepts) {listing : List String}
    (hlisting : m.explain (diagnostics b v.engine) (some root) = some listing)
    (hne : listing ≠ []) :
    v.check b (some root) = v.engine.condense listing ∧
      v.check b (some root') = v.engine.condense listing := by
  have hlisting' : m.explain (diagnostics b v.engine) (some root') = some listing := by
    rw [← explain_eq_of_mended hreached hbody hmended, hlisting]
  exact ⟨check_of_listed hverdict (explained?_eq_some_iff.mpr ⟨m, hmodel, hlisting, hne⟩),
    check_of_listed hverdict' (explained?_eq_some_iff.mpr ⟨m, hmodel, hlisting', hne⟩)⟩

/-- A fault of a reached element-only element is to be seen in the result exactly when no listing
takes the place of what the engine reports, or none that says anything else. -/
theorem check_reports_iff (hmodel : v.model = some m) (hreached : m.Reached root o)
    (hbody : m.body o.index = .children content) (hmended : DifferAt Mended o.path root root')
    {code : Int} {reports : List (Option Report)}
    (hverdict : b.judge v.grammar (some root) = .answered code reports) (hcode : 0 < code)
    (hreports : Message.ofReports reports ≠ []) :
    (v.check b (some root) = v.engine.ownMessages reports ∨
        ((b.judge v.grammar (some root')).Rejects →
          v.check b (some root) ≠ v.check b (some root'))) ↔
      ((b.judge v.grammar (some root')).Rejects →
        ∀ listing, m.explain (diagnostics b v.engine) (some root) = some listing →
          listing ≠ [] → v.engine.condense listing = v.engine.ownMessages reports) := by
  have hnot : ¬ (b.judge v.grammar (some root)).Accepts :=
    Verdict.not_accepts_of_rejects ⟨code, reports, hverdict, hcode⟩
  constructor
  · intro hseen hrejects listing hlisting hne
    obtain ⟨hcheck, hcheck'⟩ := check_eq_of_mended hmodel hreached hbody hmended hnot
      (Verdict.not_accepts_of_rejects hrejects) hlisting hne
    rcases hseen with hown | hdiffers
    · rw [← hcheck, hown]
    · exact absurd (hcheck.trans hcheck'.symm) (hdiffers hrejects)
  · intro hcovers
    by_cases hrejects : (b.judge v.grammar (some root')).Rejects
    · left
      cases hl : explained? b v (some root) with
      | none => exact check_of_rejected_unlisted hverdict hcode hreports hl
      | some listing =>
          obtain ⟨m', hm', hlisting, hne⟩ := explained?_eq_some_iff.mp hl
          cases hmodel.symm.trans hm'
          rw [check_of_listed hnot hl, hcovers hrejects listing hlisting hne]
    · exact Or.inr fun h => absurd h hrejects

/-! ## The loss -/

namespace Stray

/-- What the engine has against a pair with character data and no second part. -/
def faults : List String :=
  ["Element 'pair': Character content is not allowed.",
    "Element 'pair': Missing child element(s)."]

/-- An engine that objects to the character data, if there are any, and misses the second part. -/
def backend : Backend Nat :=
  .judging (fun grammar root =>
    match grammar with
    | 0 => .rejected (if root.map Element.text = some "" then faults.drop 1 else faults)
    | _ => .answered 0 [])

def validator : Validator Nat where
  engine := .schema
  grammar := 0
  model := some (pairModel true)

/-- A pair without its second part. -/
def pair (text : String) : Element :=
  plain "pair" text [plain "a" "1" []]

/-- The listing says nothing of the character data. -/
theorem explain_pair :
    (pairModel true).explain (diagnostics backend .schema) (some (pair "stray")) =
      some ["Error: Element 'pair': Missing child element 'b'."] := by
  rfl

theorem reached_pair : (pairModel true).Reached (pair "stray") ⟨[], pair "stray", 0⟩ :=
  ⟨0, rfl, .self⟩

theorem mended_pair : DifferAt Mended [] (pair "stray") (pair "") :=
  .here (.ofText (by decide))

theorem rejects_pair : (backend.judge 0 (some (pair ""))).Rejects :=
  ⟨1, _, rfl, by decide⟩

/-- The character data of the pair are not to be seen in the result. -/
theorem check_reports_iff_pair :
    (backend.judge 0 (some (pair ""))).Rejects ∧
      ¬ (validator.check backend (some (pair "stray")) =
            Engine.schema.ownMessages (Report.ofTexts faults) ∨
          ((backend.judge 0 (some (pair ""))).Rejects →
            validator.check backend (some (pair "stray")) ≠
              validator.check backend (some (pair "")))) := by
  refine ⟨rejects_pair, fun hseen => ?_⟩
  have hcovers := (check_reports_iff (v := validator) rfl reached_pair rfl mended_pair rfl
    (by decide) (by decide)).mp hseen rejects_pair _ explain_pair (by decide)
  exact absurd hcovers (by decide)

/-- Not every fault of a reached element-only element is to be seen in the result. -/
theorem check_hides_stray_text :
    ¬ ∀ (b : Backend Nat) (v : Validator Nat) (m : Model Nat) (root root' : Element)
        (o : Occurrence) (content : DeclaredContent) (code : Int) (reports : List (Option Report)),
      v.model = some m → m.Reached root o → m.body o.index = .children content →
      DifferAt Mended o.path root root' →
      b.judge v.grammar (some root) = .answered code reports → 0 < code →
      Message.ofReports reports ≠ [] →
        v.check b (some root) = v.engine.ownMessages reports ∨
          ((b.judge v.grammar (some root')).Rejects →
            v.check b (some root) ≠ v.check b (some root')) := by
  intro h
  have hstray : validator.check backend (some (pair "stray")) =
      ["Error: Element 'pair': Missing child element 'b'."] := by
    rfl
  have hmended : validator.check backend (some (pair "")) =
      ["Error: Element 'pair': Missing child element 'b'."] := by
    rfl
  rcases h backend validator (pairModel true) (pair "stray") (pair "") _ _ 1
    (Report.ofTexts faults) rfl reached_pair rfl mended_pair rfl (by decide) (by decide) with
    hown | hdiffers
  · exact absurd (hstray.symm.trans hown) (by decide)
  · exact hdiffers rejects_pair (hstray.trans hmended.symm)

end Stray

end Validator

end VideoCatalog
