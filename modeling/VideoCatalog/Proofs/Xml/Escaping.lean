import VideoCatalog.Xml.Token

/-!
# What is written as text is read as text

A text is escaped character by character (`escapeChar_cases`), and `resolve` reads it back from left
to right. `clean` is what is left of a text on the way: a character that no document can hold
becomes U+FFFD, and nothing else changes. `resolve_escape` says what a text is read as at any place,
given what the characters that are not escaped are read as. Between tags that is what they are
(`contentText?_escape`); between quotes a tab or a line feed becomes a blank (`inAttribute`,
`attributeValue?_escape`).

No escaped text holds an angle bracket or a carriage return, nor a double quote between quotes
(`not_mem_escape`). So it cannot end the element or the attribute that it stands in, and making line
ends uniform leaves it alone.
-/

namespace VideoCatalog.Xml

/-! ## What a document carries -/

/-- A character as a document carries it. -/
def cleanChar (c : Char) : Char :=
  if isXmlChar c then c else '\ufffd'

/-- A text as a document carries it. -/
def clean (s : String) : String :=
  String.ofList (s.toList.map cleanChar)

@[simp]
theorem toList_clean (s : String) : (clean s).toList = s.toList.map cleanChar :=
  String.toList_ofList

theorem cleanChar_of_isXmlChar {c : Char} (h : isXmlChar c = true) : cleanChar c = c :=
  if_pos h

/-- A character that is replaced becomes none that is asked for. -/
theorem cleanChar_eq_iff {c d : Char} (h : d ≠ '\ufffd') :
    cleanChar c = d ↔ isXmlChar c ∧ c = d := by
  unfold cleanChar
  split
  · simp [*]
  · simp [*, h.symm]

theorem isXmlChar_cleanChar (c : Char) : isXmlChar (cleanChar c) = true := by
  unfold cleanChar
  split
  · assumption
  · decide

theorem clean_of_isXmlChar {s : String} (h : ∀ c ∈ s.toList, isXmlChar c = true) :
    clean s = s := by
  rw [clean, List.map_congr_left (fun c hc => cleanChar_of_isXmlChar (h c hc)), List.map_id',
    String.ofList_toList]

/-! ## Escaping one character -/

/-- The references that are written, without their first and last characters. -/
def writtenNames : List (List Char) :=
  ["amp".toList, "lt".toList, "gt".toList, "quot".toList, "#13".toList]

/-- A character is written as a reference that stands for it, or as itself where it can stand for
itself. -/
theorem escapeChar_cases (place : Place) (c : Char) :
    (∃ name ∈ writtenNames, escapeChar place c = '&' :: (name ++ [';']) ∧
      referenced? name = some (cleanChar c)) ∨
    (escapeChar place c = [cleanChar c] ∧ cleanChar c ∉ ['&', '<', '>', '\r'] ∧
      (place = .attribute → cleanChar c ≠ '\x22')) := by
  by_cases hamp : c = '&'
  · exact .inl ⟨"amp".toList, by decide, by subst hamp; rfl, by subst hamp; decide⟩
  by_cases hlt : c = '<'
  · exact .inl ⟨"lt".toList, by decide, by subst hlt; rfl, by subst hlt; decide⟩
  by_cases hgt : c = '>'
  · exact .inl ⟨"gt".toList, by decide, by subst hgt; rfl, by subst hgt; decide⟩
  by_cases hcr : c = '\r'
  · exact .inl ⟨"#13".toList, by decide, by subst hcr; cases place <;> rfl, by subst hcr; decide⟩
  by_cases hquote : c = '\x22' ∧ place = .attribute
  · obtain ⟨rfl, rfl⟩ := hquote
    exact .inl ⟨"quot".toList, by decide, rfl, by decide⟩
  · refine .inr ⟨?_, ?_, ?_⟩
    · have hquote' : (decide (c = '\x22') && decide (place = .attribute)) = false := by
        simpa using hquote
      simp only [escapeChar, if_neg hamp, if_neg hlt, if_neg hgt, hquote', if_neg hcr, cleanChar,
        Bool.false_eq_true, if_false]
      split <;> rfl
    · simp [cleanChar_eq_iff, hamp, hlt, hgt, hcr]
    · rintro rfl hc
      exact hquote ⟨((cleanChar_eq_iff (by decide)).mp hc).2, rfl⟩

theorem not_mem_escape {place : Place} {d : Char} (s : String)
    (hd : d ∈ ['<', '>', '\r'] ∨ (place = .attribute ∧ d = '\x22')) :
    d ∉ (escape place s).toList := by
  rw [escape, String.toList_ofList, List.mem_flatMap]
  rintro ⟨c, -, hmem⟩
  obtain ⟨name, hname, heq, -⟩ | ⟨heq, hplain, hquote⟩ := escapeChar_cases place c
  · have hnames : ∀ name ∈ writtenNames,
        ('&' :: (name ++ [';'])).all (fun x => x ∉ ['<', '>', '\r'] ∧ x ≠ '\x22') = true := by
      decide
    obtain ⟨hx, hx'⟩ := of_decide_eq_true (List.all_eq_true.mp (hnames name hname) d (heq ▸ hmem))
    rcases hd with hd | ⟨-, hd⟩
    · exact hx hd
    · exact hx' hd
  · obtain rfl : d = cleanChar c := List.mem_singleton.mp (heq ▸ hmem)
    rcases hd with hd | ⟨hplace, hd⟩
    · exact hplain (List.mem_cons_of_mem _ hd)
    · exact hquote hplace hd

/-! ## Reading it back -/

/-- A reference is read up to its end and stands for one character. -/
theorem resolve_reference (literal : Char → Option Char) {name : List Char} (h : ';' ∉ name)
    (begun rest : List Char) :
    resolve literal (some begun) (name ++ ';' :: rest) =
      (referenced? (begun.reverse ++ name)).bind
        (fun d => (resolve literal none rest).map (d :: ·)) := by
  induction name generalizing begun with
  | nil =>
      rw [List.nil_append, resolve, if_pos rfl, List.append_nil]
      cases referenced? begun.reverse <;> cases resolve literal none rest <;> rfl
  | cons c name ih =>
      have hc : c ≠ ';' := fun heq => h (heq ▸ List.mem_cons_self)
      rw [List.cons_append, resolve, if_neg hc, ih (fun hmem => h (List.mem_cons_of_mem _ hmem))]
      simp

/-- One character is read as `d`: that is what a reference to it gives, or what it is read as where
it stands for itself. -/
theorem resolve_escapeChar (place : Place) (literal : Char → Option Char) {c d : Char}
    (hplain : escapeChar place c = [cleanChar c] → literal (cleanChar c) = some d)
    (hreference : escapeChar place c ≠ [cleanChar c] → d = cleanChar c) (rest : List Char) :
    resolve literal none (escapeChar place c ++ rest) =
      (resolve literal none rest).map (d :: ·) := by
  obtain ⟨name, hname, heq, hstands⟩ | ⟨heq, hamp, -⟩ := escapeChar_cases place c
  · have hsemicolon : ∀ name ∈ writtenNames, ';' ∉ name := by decide
    obtain rfl : d = cleanChar c := hreference (by simp [heq])
    rw [heq, List.cons_append, List.append_assoc, List.singleton_append, resolve, if_pos rfl,
      resolve_reference literal (hsemicolon name hname), List.reverse_nil, List.nil_append, hstands]
    rfl
  · have hne : cleanChar c ≠ '&' := fun hc => hamp (hc ▸ List.mem_cons_self)
    rw [heq, List.singleton_append, resolve, if_neg hne, hplain heq]
    cases resolve literal none rest <;> rfl

/-- What a text is read as, given what each character is read as. -/
theorem resolve_escape (place : Place) (literal : Char → Option Char) (read : Char → Char)
    (s : String)
    (hplain : ∀ c ∈ s.toList, escapeChar place c = [cleanChar c] →
      literal (cleanChar c) = some (read c))
    (hreference : ∀ c ∈ s.toList, escapeChar place c ≠ [cleanChar c] → read c = cleanChar c) :
    resolve literal none (escape place s).toList = some (s.toList.map read) := by
  rw [escape, String.toList_ofList]
  generalize s.toList = cs at hplain hreference
  induction cs with
  | nil => rfl
  | cons c cs ih =>
      rw [List.flatMap_cons, resolve_escapeChar place literal (hplain c List.mem_cons_self)
          (hreference c List.mem_cons_self),
        ih (fun d hd => hplain d (List.mem_cons_of_mem _ hd))
          (fun d hd => hreference d (List.mem_cons_of_mem _ hd))]
      rfl

theorem cleanChar_mem_escape {place : Place} {s : String} {c : Char} (hc : c ∈ s.toList)
    (heq : escapeChar place c = [cleanChar c]) : cleanChar c ∈ (escape place s).toList := by
  rw [escape, String.toList_ofList, List.mem_flatMap]
  exact ⟨c, hc, heq ▸ List.mem_singleton_self _⟩

/-- Between tags any text is read back. -/
theorem contentText?_escape (s : String) :
    contentText? (escape .content s).toList = some (clean s).toList := by
  rw [toList_clean]
  refine resolve_escape .content contentLiteral cleanChar s (fun c hc heq => ?_) (fun _ _ _ => rfl)
  have hlt : cleanChar c ≠ '<' := fun h =>
    not_mem_escape s (.inl (by simp)) (h ▸ cleanChar_mem_escape hc heq)
  simp [contentLiteral, hlt, isXmlChar_cleanChar]

/-- Between tags characters that are not escaped are read as they are. -/
theorem contentText?_of_plain {cs : List Char}
    (h : ∀ c ∈ cs, c ≠ '&' ∧ c ≠ '<' ∧ isXmlChar c = true) : contentText? cs = some cs := by
  unfold contentText?
  induction cs with
  | nil => rfl
  | cons c cs ih =>
      obtain ⟨hamp, hlt, hxml⟩ := h c List.mem_cons_self
      rw [resolve, if_neg hamp, ih (fun d hd => h d (List.mem_cons_of_mem _ hd))]
      simp [contentLiteral, hlt, hxml]

/-! ## Between quotes -/

/-- A character as it is read between quotes: a tab or a line feed becomes a blank. -/
def attributeChar (c : Char) : Char :=
  if c = '\t' ∨ c = '\n' then ' ' else cleanChar c

/-- A text as it is read between quotes. -/
def inAttribute (s : String) : String :=
  String.ofList (s.toList.map attributeChar)

@[simp]
theorem toList_inAttribute (s : String) : (inAttribute s).toList = s.toList.map attributeChar :=
  String.toList_ofList

theorem attributeLiteral_cleanChar {c : Char} (hlt : cleanChar c ≠ '<') (hcr : cleanChar c ≠ '\r') :
    attributeLiteral (cleanChar c) = some (attributeChar c) := by
  have htab : cleanChar c = '\t' ↔ c = '\t' := by
    rw [cleanChar_eq_iff (by decide)]
    exact ⟨And.right, fun h => ⟨h ▸ rfl, h⟩⟩
  have hfeed : cleanChar c = '\n' ↔ c = '\n' := by
    rw [cleanChar_eq_iff (by decide)]
    exact ⟨And.right, fun h => ⟨h ▸ rfl, h⟩⟩
  by_cases hspace : c = '\t' ∨ c = '\n'
  · have hgap : isGap (cleanChar c) = true := by
      rcases hspace with rfl | rfl <;> rfl
    rw [attributeLiteral, if_neg hlt, if_pos hgap, attributeChar, if_pos hspace]
  · have hread : attributeChar c = cleanChar c := if_neg hspace
    rw [hread]
    by_cases hblank : cleanChar c = ' '
    · rw [hblank]
      rfl
    · have hgap : isGap (cleanChar c) = false := by
        simp [isGap, hblank, hcr, htab, hfeed, not_or.mp hspace]
      simp [attributeLiteral, hlt, hgap, isXmlChar_cleanChar]

/-- Between quotes any text is read back, with blanks for its tabs and line feeds. -/
theorem attributeValue?_escape (s : String) :
    attributeValue? (escape .attribute s).toList = some (inAttribute s).toList := by
  rw [toList_inAttribute]
  refine resolve_escape .attribute attributeLiteral attributeChar s (fun c hc heq => ?_)
    (fun c _ hne => ?_)
  · have hmem := cleanChar_mem_escape hc heq
    exact attributeLiteral_cleanChar (fun h => not_mem_escape s (.inl (by simp)) (h ▸ hmem))
      (fun h => not_mem_escape s (.inl (by simp)) (h ▸ hmem))
  · have hspace : ¬ (c = '\t' ∨ c = '\n') := by
      rintro (rfl | rfl) <;> exact hne (by decide)
    exact if_neg hspace

theorem inAttribute_of_plain {s : String}
    (h : ∀ c ∈ s.toList, isXmlChar c = true ∧ c ≠ '\t' ∧ c ≠ '\n') : inAttribute s = s := by
  have hread : ∀ c ∈ s.toList, attributeChar c = c := by
    intro c hc
    obtain ⟨hxml, htab, hfeed⟩ := h c hc
    rw [attributeChar, if_neg (not_or.mpr ⟨htab, hfeed⟩), cleanChar_of_isXmlChar hxml]
  rw [inAttribute, List.map_congr_left hread, List.map_id', String.ofList_toList]

/-- A text that no other text is read as: there are no blanks in it, and no U+FFFD. -/
def isUnmistakable (s : String) : Bool :=
  s.toList.all (fun c => isXmlChar c && !([' ', '\t', '\n', '\ufffd'].contains c))

theorem inAttribute_eq_iff {s t : String} (ht : isUnmistakable t = true) :
    inAttribute s = t ↔ s = t := by
  have h : ∀ c ∈ t.toList, isXmlChar c = true ∧ c ∉ [' ', '\t', '\n', '\ufffd'] := by
    intro c hc
    have hall := List.all_eq_true.mp ht c hc
    rw [Bool.and_eq_true, Bool.not_eq_true', List.contains_eq_mem, decide_eq_false_iff_not] at hall
    exact hall
  constructor
  · rintro rfl
    have hread : ∀ c ∈ s.toList, attributeChar c = c := by
      intro c hc
      have hmem : attributeChar c ∈ (inAttribute s).toList := by
        rw [toList_inAttribute]
        exact List.mem_map_of_mem hc
      have hout := (h _ hmem).2
      by_cases hspace : c = '\t' ∨ c = '\n'
      · rw [attributeChar, if_pos hspace] at hout
        simp at hout
      · rw [attributeChar, if_neg hspace] at hout ⊢
        by_cases hxml : isXmlChar c = true
        · exact cleanChar_of_isXmlChar hxml
        · rw [cleanChar, if_neg hxml] at hout
          simp at hout
    rw [inAttribute, List.map_congr_left hread, List.map_id', String.ofList_toList]
  · rintro rfl
    refine inAttribute_of_plain fun c hc => ?_
    obtain ⟨hxml, hout⟩ := h c hc
    simp only [List.mem_cons, List.not_mem_nil, or_false, not_or] at hout
    exact ⟨hxml, hout.2.1, hout.2.2.1⟩

end VideoCatalog.Xml
