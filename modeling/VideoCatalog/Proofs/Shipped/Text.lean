import VideoCatalog.Proofs.Shipped.Pattern
import VideoCatalog.Proofs.Shipped.Schema
import VideoCatalog.Shipped
import VideoCatalog.Xml.Reader

/-!
# The texts of the shipped grammars

The trees `Schema.root` and `Pattern.root` are what is read of the texts of the shipped grammars,
apart from line numbers and from the white space between tags (`exists_schema`, `exists_pattern`).
-/

namespace VideoCatalog

/-! ## Elements without layout -/

namespace Xml.Element

mutual
/-- The element without line numbers and without texts of nothing but white space. -/
def bare : Element → Element
  | .mk tag text children =>
    .mk { tag with line := 1 } (if text.toList.all isGap then "" else text) (bareAll children)

def bareAll : List Element → List Element
  | [] => []
  | e :: es => bare e :: bareAll es
end

mutual
/-- Whether two elements are the same. -/
def same : Element → Element → Bool
  | .mk tag text children, .mk tag' text' children' =>
    tag = tag' && text = text' && sameAll children children'

def sameAll : List Element → List Element → Bool
  | [], [] => true
  | e :: es, e' :: es' => same e e' && sameAll es es'
  | _, _ => false
end

mutual
theorem eq_of_same : ∀ {e e' : Element}, same e e' = true → e = e'
  | .mk tag text children, .mk tag' text' children', h => by
      rw [same, Bool.and_eq_true, Bool.and_eq_true, decide_eq_true_eq, decide_eq_true_eq] at h
      obtain ⟨⟨htag, htext⟩, hchildren⟩ := h
      rw [htag, htext, eq_of_sameAll hchildren]

theorem eq_of_sameAll : ∀ {es es' : List Element}, sameAll es es' = true → es = es'
  | [], [], _ => rfl
  | e :: es, e' :: es', h => by
      rw [sameAll, Bool.and_eq_true] at h
      rw [eq_of_same h.1, eq_of_sameAll h.2]
  | [], _ :: _, h => by cases h
  | _ :: _, [], h => by cases h
end

end Xml.Element

namespace Shipped

open Xml (Element)

/-! ## Reading the texts -/

/-- The characters of a text of lines, line by line. -/
theorem toList_ofLines (lines : List String) :
    (ofLines lines).toList = lines.flatMap (fun line => line.toList ++ ['\n']) := by
  simp [ofLines, List.flatMap_map]

/-- The text is read as this element, apart from layout, if that can be seen by reading it. -/
theorem exists_bare_eq {text : String} {root : Element}
    (h : (Element.ofText? text).toOption.any (fun e => e.bare.same root) = true) :
    ∃ e, Element.ofText? text = .ok e ∧ e.bare = root := by
  obtain ⟨e, he, hsame⟩ := (Option.any_eq_true _ _).mp h
  cases htext : Element.ofText? text with
  | error _ =>
      rw [htext] at he
      cases he
  | ok e' =>
      rw [htext] at he
      obtain rfl := Option.some.inj he
      exact ⟨e', rfl, Element.eq_of_same hsame⟩

-- The characters are written out line by line first: the kernel would run out of memory over the
-- text as one string.
set_option maxRecDepth 100000 in
theorem exists_schema :
    ∃ e, Element.ofText? schemaText = .ok e ∧ e.bare = Schema.root.element := by
  refine exists_bare_eq ?_
  rw [Element.ofText?, Xml.tokens, schemaText, toList_ofLines]
  simp only [schemaLines, List.flatMap_cons, List.flatMap_nil, List.append_nil,
    String.reduceToList, List.cons_append, List.nil_append]
  decide +kernel

set_option maxRecDepth 100000 in
theorem exists_pattern :
    ∃ e, Element.ofText? patternText = .ok e ∧ e.bare = Pattern.root.element := by
  refine exists_bare_eq ?_
  rw [Element.ofText?, Xml.tokens, patternText, toList_ofLines]
  simp only [patternLines, List.flatMap_cons, List.flatMap_nil, List.append_nil,
    String.reduceToList, List.cons_append, List.nil_append]
  decide +kernel

end Shipped

end VideoCatalog
