import VideoCatalog.Proofs.Xml.Lexing

/-!
# The pieces of a written document

The writer puts every tag on a line of its own. Between two tags there is either the text of a leaf
or a line break and the blanks in front of the next tag, so `body` gives the characters of a part
from its first tag to its last, and `pieces` what they are taken apart into. `tokens_document` says
that a whole document is taken apart into the pieces of its root, between two line breaks. It asks
of the part that its names are names and its namespaces need no escaping (`IsProper`), and nothing
of the texts.
-/

namespace VideoCatalog.Xml.Markup

/-- A line break and the blanks in front of the next tag. -/
def lineStart (depth : Nat) : List Char :=
  '\n' :: List.replicate (2 * depth) ' '

mutual
/-- The characters of a part from its first tag to its last. -/
def body (depth : Nat) : Markup → List Char
  | .leaf name value =>
    '<' :: (name.toList ++ '>' ::
      ((escape .content value).toList ++ '<' :: '/' :: (name.toList ++ ['>'])))
  | .empty name => '<' :: (name.toList ++ ['/', '>'])
  | .block name uri content =>
    '<' :: (name.toList ++ ((namespaceText uri).toList ++ '>' ::
      (bodies (depth + 1) content ++ (lineStart depth ++ '<' :: '/' :: (name.toList ++ ['>'])))))

/-- The characters of several parts, each on its own lines. -/
def bodies (depth : Nat) : List Markup → List Char
  | [] => []
  | part :: parts => lineStart depth ++ (body depth part ++ bodies depth parts)
end

theorem toList_indent (depth : Nat) : (indent depth).toList = List.replicate (2 * depth) ' ' :=
  String.toList_ofList

mutual
theorem toList_text (depth : Nat) : ∀ part : Markup,
    (text depth part).toList = List.replicate (2 * depth) ' ' ++ (body depth part ++ ['\n'])
  | .leaf name value => by simp [text, body, toList_indent]
  | .empty name => by simp [text, body, toList_indent]
  | .block name uri content => by
      have ih := toList_texts (depth + 1) content
      have hcontent : ∀ rest, '\n' :: ((texts (depth + 1) content).toList ++ rest) =
          bodies (depth + 1) content ++ '\n' :: rest := fun rest => by
        rw [← List.cons_append, ih, List.append_assoc, List.singleton_append]
      simp [text, body, toList_indent, hcontent, lineStart]

theorem toList_texts (depth : Nat) : ∀ parts : List Markup,
    '\n' :: (texts depth parts).toList = bodies depth parts ++ ['\n']
  | [] => rfl
  | part :: parts => by
      have ih := toList_texts depth parts
      simp [texts, bodies, toList_text depth part, lineStart, ih]
end

/-! ## The pieces -/

/-- The attributes of a start tag. -/
def declaredAttributes : Option String → List (String × String)
  | some uri => [("xmlns", uri)]
  | none => []

/-- The text of a leaf as a piece; no text is no piece. -/
def textPieces (value : String) : List Token :=
  if value = "" then [] else [.text (clean value).toList]

mutual
/-- The pieces of a part from its first tag to its last. -/
def pieces (depth : Nat) : Markup → List Token
  | .leaf name value => .start name [] 1 false :: (textPieces value ++ [.finish name])
  | .empty name => [.start name [] 1 true]
  | .block name uri content =>
    .start name (declaredAttributes uri) 1 false ::
      (allPieces (depth + 1) content ++ [.text (lineStart depth), .finish name])

/-- The pieces of several parts, each on its own lines. -/
def allPieces (depth : Nat) : List Markup → List Token
  | [] => []
  | part :: parts => .text (lineStart depth) :: (pieces depth part ++ allPieces depth parts)
end

/-- A namespace that is written as it is. -/
def IsPlainUri (uri : String) : Prop :=
  uri ≠ "" ∧ ∀ c ∈ uri.toList, isXmlChar c = true ∧ c ≠ '\t' ∧ c ≠ '\n'

mutual
/-- The names are names, and the namespaces are written as they are. -/
def IsProper : Markup → Prop
  | .leaf name _ => isPlainName name = true
  | .empty name => isPlainName name = true
  | .block name uri content =>
    isPlainName name = true ∧ (∀ u, uri = some u → IsPlainUri u) ∧ AreProper content

/-- So it is with all of the parts. -/
def AreProper : List Markup → Prop
  | [] => True
  | part :: parts => IsProper part ∧ AreProper parts
end

theorem exists_body_eq_cons (depth : Nat) (part : Markup) : ∃ cs, body depth part = '<' :: cs := by
  cases part with
  | leaf name value => exact ⟨_, rfl⟩
  | empty name => exact ⟨_, rfl⟩
  | block name uri content => exact ⟨_, rfl⟩

theorem mem_lineStart {depth : Nat} {c : Char} (h : c ∈ lineStart depth) : c = '\n' ∨ c = ' ' := by
  rcases List.mem_cons.mp h with hfirst | hblank
  · exact .inl hfirst
  · exact .inr (List.eq_of_mem_replicate hblank)

/-- A line break and blanks are read as they are. -/
theorem lineStart_lexes (depth : Nat) {rest : List Char} {ts : List Token}
    (h : Lexes ('<' :: rest) ts) :
    Lexes (lineStart depth ++ '<' :: rest) (.text (lineStart depth) :: ts) := by
  have hplain : ∀ c ∈ lineStart depth, c ≠ '&' ∧ c ≠ '<' ∧ c ≠ '>' ∧ isXmlChar c = true := by
    intro c hc
    rcases mem_lineStart hc with rfl | rfl <;> decide
  exact Lexes.text (List.cons_ne_nil _ _) (fun hc => (hplain _ hc).2.1 rfl)
    (fun hc => (hplain _ hc).2.2.1 rfl)
    (contentText?_of_plain fun c hc => ⟨(hplain c hc).1, (hplain c hc).2.1, (hplain c hc).2.2.2⟩) h

theorem textPieces_lexes (value : String) {rest : List Char} {ts : List Token}
    (h : Lexes ('<' :: rest) ts) :
    Lexes ((escape .content value).toList ++ '<' :: rest) (textPieces value ++ ts) := by
  by_cases hempty : value = ""
  · subst hempty
    exact h
  · have hne : (escape .content value).toList ≠ [] := by
      intro hnil
      have hread := contentText?_escape value
      rw [hnil, toList_clean] at hread
      have hnone := List.map_eq_nil_iff.mp (Option.some.inj hread).symm
      exact hempty (String.toList_eq_nil_iff.mp hnone)
    rw [textPieces, if_neg hempty]
    exact Lexes.text hne (not_mem_escape value (.inl (by simp)))
      (not_mem_escape value (.inl (by simp))) (contentText?_escape value) h

/-- The declaration of a namespace is an attribute like any other. -/
theorem toList_namespaceText (uri : Option String) :
    (namespaceText uri).toList = attributeChars (declaredAttributes uri) := by
  cases uri with
  | none => rfl
  | some u => simp [namespaceText, attributeChars, declaredAttributes]

theorem areAttributes_declaredAttributes (uri : Option String) :
    AreAttributes (declaredAttributes uri) := by
  cases uri with
  | none => exact AreAttributes.nil
  | some u =>
      have hname : isName "xmlns" = true := by decide
      refine ⟨fun a ha => ?_, List.pairwise_singleton _ _⟩
      obtain rfl := List.mem_singleton.mp ha
      exact hname

/-- A plain namespace is read as it is written. -/
theorem asRead_declaredAttributes {uri : Option String} (h : ∀ u, uri = some u → IsPlainUri u) :
    asRead (declaredAttributes uri) = declaredAttributes uri := by
  cases uri with
  | none => rfl
  | some u =>
      rw [declaredAttributes, asRead, List.map_singleton, inAttribute_of_plain (h u rfl).2]

mutual
theorem body_lexes (depth : Nat) {rest : List Char} {ts : List Token} (h : Lexes rest ts) :
    ∀ part : Markup, IsProper part → Lexes (body depth part ++ rest) (pieces depth part ++ ts)
  | .leaf name value, hname => by
      have hfinish := Lexes.finish (isName_of_isPlainName hname) h
      have htag := Lexes.tag (isName_of_isPlainName hname) AreAttributes.nil false
        (textPieces_lexes value hfinish)
      simpa [body, pieces, attributeChars, asRead, tagEnd] using htag
  | .empty name, hname => by
      have htag := Lexes.tag (isName_of_isPlainName hname) AreAttributes.nil true h
      simpa [body, pieces, attributeChars, asRead, tagEnd] using htag
  | .block name uri content, ⟨hname, huri, hcontent⟩ => by
      have hfinish := lineStart_lexes depth (Lexes.finish (isName_of_isPlainName hname) h)
      have hinside := bodies_lexes (depth + 1) hfinish content hcontent
      have htag := Lexes.tag (isName_of_isPlainName hname) (areAttributes_declaredAttributes uri)
        false hinside
      rw [asRead_declaredAttributes huri] at htag
      simpa [body, pieces, toList_namespaceText, tagEnd] using htag

theorem bodies_lexes (depth : Nat) {rest : List Char} {ts : List Token} (h : Lexes rest ts) :
    ∀ parts : List Markup, AreProper parts →
      Lexes (bodies depth parts ++ rest) (allPieces depth parts ++ ts)
  | [], _ => h
  | part :: parts, ⟨hpart, hparts⟩ => by
      have hbody := body_lexes depth (bodies_lexes depth h parts hparts) part hpart
      obtain ⟨cs, hcs⟩ := exists_body_eq_cons depth part
      rw [hcs, List.cons_append] at hbody
      simpa [bodies, allPieces, hcs] using lineStart_lexes depth hbody
end

/-! ## Whole documents -/

theorem return_not_mem_name {name : String} (h : isPlainName name = true) : '\r' ∉ name.toList :=
  return_not_mem_isName (isName_of_isPlainName h)

theorem return_not_mem_lineStart (depth : Nat) : '\r' ∉ lineStart depth := fun hmem => by
  rcases mem_lineStart hmem with h | h <;> exact absurd h (by decide)

theorem return_not_mem_namespaceText (uri : Option String) :
    '\r' ∉ (namespaceText uri).toList := by
  rw [toList_namespaceText]
  exact return_not_mem_attributeChars (areAttributes_declaredAttributes uri)

mutual
theorem return_not_mem_body (depth : Nat) :
    ∀ part : Markup, IsProper part → '\r' ∉ body depth part
  | .leaf name value, hname => by
      have hescape : '\r' ∉ (escape .content value).toList := not_mem_escape value (.inl (by simp))
      simp [body, return_not_mem_name hname, hescape]
  | .empty name, hname => by
      simp [body, return_not_mem_name hname]
  | .block name uri content, ⟨hname, _, hcontent⟩ => by
      simp [body, return_not_mem_name hname, return_not_mem_namespaceText,
        return_not_mem_lineStart, return_not_mem_bodies (depth + 1) content hcontent]

theorem return_not_mem_bodies (depth : Nat) :
    ∀ parts : List Markup, AreProper parts → '\r' ∉ bodies depth parts
  | [], _ => List.not_mem_nil
  | part :: parts, ⟨hpart, hparts⟩ => by
      simp [bodies, return_not_mem_lineStart, return_not_mem_body depth part hpart,
        return_not_mem_bodies depth parts hparts]
end

/-- Without carriage returns there are no line ends to make uniform. -/
theorem normalizeLines_of_not_mem {cs : List Char} (h : '\r' ∉ cs) : normalizeLines cs = cs := by
  induction cs with
  | nil => rfl
  | cons c cs ih =>
      obtain ⟨hc, hcs⟩ : '\r' ≠ c ∧ '\r' ∉ cs := by simpa using h
      rw [normalizeLines, ih hcs]
      · exact fun _ h _ => hc h.symm
      · exact fun h => hc h.symm

theorem toList_document (part : Markup) :
    (document part).toList =
      "<?xml version=\"1.0\" encoding=\"UTF-8\"?>".toList ++
        (lineStart 0 ++ (body 0 part ++ ['\n'])) := by
  have hfirst : "<?xml version=\"1.0\" encoding=\"UTF-8\"?>\n".toList =
      "<?xml version=\"1.0\" encoding=\"UTF-8\"?>".toList ++ lineStart 0 := by
    simp [lineStart]
  unfold document
  rw [String.toList_append, hfirst, toList_text, List.append_assoc, Nat.mul_zero,
    List.replicate_zero, List.nil_append]

theorem return_not_mem_document {part : Markup} (h : IsProper part) :
    '\r' ∉ (document part).toList := by
  have hfirst : '\r' ∉ "<?xml version=\"1.0\" encoding=\"UTF-8\"?>".toList := by simp
  rw [toList_document, List.mem_append, List.mem_append, List.mem_append, not_or, not_or, not_or]
  exact ⟨hfirst, return_not_mem_lineStart 0, return_not_mem_body 0 part h, by decide⟩

/-- A document is taken apart into the pieces of its root, between two line breaks. -/
theorem tokens_document {part : Markup} (h : IsProper part) :
    ∃ found, tokens (document part) = .ok found ∧
      found.map Token.unlined = .text ['\n'] :: (pieces 0 part ++ [.text ['\n']]) := by
  have hend : Lexes ['\n'] [.text ['\n']] :=
    Lexes.step (t := some (.text ['\n'])) (fun line => ⟨_, _, rfl, rfl⟩) (Nat.le_refl 0) .nil
  have hbody := body_lexes 0 hend part h
  obtain ⟨cs, hcs⟩ := exists_body_eq_cons 0 part
  rw [hcs, List.cons_append] at hbody
  have hdocument := Lexes.declaration (lineStart_lexes 0 hbody)
  rw [← List.cons_append, ← hcs, ← toList_document] at hdocument
  unfold tokens
  rw [normalizeLines_of_not_mem (return_not_mem_document h)]
  exact hdocument 1 _ (Nat.le_succ _)

end VideoCatalog.Xml.Markup
