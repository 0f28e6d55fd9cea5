import VideoCatalog.Proofs.Xml.Fragment

/-!
# What was read can be written

The root that is read from a text is legible, whatever the text is (`isLegible_of_ofText?`). A start
tag is taken from the text only if its names are names, if no attribute is given twice and if the
values hold nothing but characters of a document (`IsStart`). Such a tag is read as itself once its
declarations stand in front of its other attributes (`IsStart.isLegible_readTag`). From there every
piece that is taken keeps the open elements and what is inside them legible (`Progress.Sound.take`).

So an element that was read can be written down, and is found again as far as a text carries it
(`ofText?_markup`), and a document gives texts for its elements (`Document.serializes_ofText?`).
-/

namespace VideoCatalog.Xml

/-! ## Characters and names -/

theorem isXmlChar_of_charOfCode? {code : Nat} {c : Char} (h : charOfCode? code = some c) :
    isXmlChar c = true := by
  by_cases hcode : code.isValidChar
  · by_cases hxml : isXmlChar (Char.ofNatAux code hcode) = true
    · rw [charOfCode?, dif_pos hcode, if_pos hxml] at h
      exact Option.some.inj h ▸ hxml
    · rw [charOfCode?, dif_pos hcode, if_neg hxml] at h
      cases h
  · rw [charOfCode?, dif_neg hcode] at h
    cases h

/-- A reference stands for a character that documents can hold. -/
theorem isXmlChar_of_referenced? {name : List Char} {c : Char} (h : referenced? name = some c) :
    isXmlChar c = true := by
  rw [referenced?.eq_def] at h
  split at h
  iterate 5
    · obtain rfl := Option.some.inj h
      decide
  · obtain ⟨code, -, hcode⟩ := Option.bind_eq_some_iff.mp h
    exact isXmlChar_of_charOfCode? hcode
  · obtain ⟨code, -, hcode⟩ := Option.bind_eq_some_iff.mp h
    exact isXmlChar_of_charOfCode? hcode
  · cases h

/-- A text is read as such characters, if those outside of references are read as such. -/
theorem isXmlChar_of_resolve {literal : Char → Option Char}
    (hliteral : ∀ c d, literal c = some d → isXmlChar d = true) {pending : Option (List Char)}
    {raw cs : List Char} (h : resolve literal pending raw = some cs) :
    ∀ c ∈ cs, isXmlChar c = true := by
  fun_induction resolve literal pending raw generalizing cs with
  | case1 =>
      obtain rfl := Option.some.inj h
      exact List.forall_mem_nil _
  | case2 => cases h
  | case3 cs ih => exact ih h
  | case4 c cs hamp d ds hds hd ih =>
      obtain rfl := Option.some.inj h
      exact List.forall_mem_cons.mpr ⟨hliteral c d hd, ih hds⟩
  | case5 => cases h
  | case6 name cs d ds hds hd ih =>
      obtain rfl := Option.some.inj h
      exact List.forall_mem_cons.mpr ⟨isXmlChar_of_referenced? hd, ih hds⟩
  | case7 => cases h
  | case8 name c cs hc ih => exact ih h

theorem isXmlChar_of_attributeValue? {raw cs : List Char} (h : attributeValue? raw = some cs) :
    ∀ c ∈ cs, isXmlChar c = true := by
  refine isXmlChar_of_resolve (fun c d hd => ?_) h
  rw [attributeLiteral] at hd
  split at hd
  · cases hd
  · split at hd
    · obtain rfl := Option.some.inj hd
      decide
    · split at hd
      · next hxml =>
        obtain rfl := Option.some.inj hd
        exact hxml
      · cases hd

theorem isName_of_name? {cs rest : List Char} {name : String} (h : name? cs = some (name, rest)) :
    isName name = true := by
  cases cs with
  | nil => cases h
  | cons c cs =>
      rw [name?] at h
      split at h
      · next hstart =>
        have hchar : isNameChar c = true := by rw [isNameChar, hstart, Bool.true_or]
        obtain ⟨rfl, -⟩ := Prod.mk.inj (Option.some.inj h)
        refine isName_iff.mpr ⟨⟨c, cs.takeWhile isNameChar, ?_, hstart⟩, fun d hd => ?_⟩
        · rw [String.toList_ofList, List.takeWhile_cons_of_pos hchar]
        · rw [String.toList_ofList] at hd
          exact List.all_eq_true.mp List.all_takeWhile d hd
      · cases h

/-! ## Start tags -/

/-- A start tag of this name can say this. -/
structure IsStart (name : String) (as : List (String × String)) : Prop where
  name : isName name = true
  attributes : AreAttributes as
  values : ∀ a ∈ as, ∀ c ∈ a.2.toList, isXmlChar c = true

theorem isName_of_attribute? {cs raw rest : List Char} {name value : String}
    (h : attribute? cs = some (name, value, raw, rest)) :
    isName name = true ∧ ∀ c ∈ value.toList, isXmlChar c = true := by
  obtain ⟨⟨name', behind⟩, hname, h⟩ := Option.bind_eq_some_iff.mp h
  dsimp only at h
  split at h
  · split at h
    · split at h
      · obtain ⟨⟨raw', rest'⟩, -, h⟩ := Option.bind_eq_some_iff.mp h
        obtain ⟨value', hvalue, h⟩ := Option.bind_eq_some_iff.mp h
        cases h
        refine ⟨isName_of_name? hname, fun c hc => ?_⟩
        rw [String.toList_ofList] at hc
        exact isXmlChar_of_attributeValue? hvalue c hc
      · cases h
    · cases h
  · cases h

/-- Either the start tag ends, or one attribute stands in front of others of other names. -/
theorem attributes?_cases {fuel line line' : Nat} {cs rest : List Char} {closed : Bool}
    {as : List (String × String)}
    (h : attributes? (fuel + 1) line cs = some (as, line', closed, rest)) :
    as = [] ∨ ∃ name value raw behind line'' more,
      attribute? (cs.dropWhile isGap) = some (name, value, raw, behind) ∧
        attributes? fuel line'' behind = some (more, line', closed, rest) ∧
        name ∉ more.map Prod.fst ∧ as = (name, value) :: more := by
  rw [attributes?] at h
  split at h
  · cases h
    exact .inl rfl
  · cases h
    exact .inl rfl
  split at h
  · cases h
  split at h
  · cases h
  next name value raw behind hattribute =>
  split at h
  · cases h
  next more _ _ _ hmore =>
  split at h
  · cases h
  next hnew =>
  cases h
  refine .inr ⟨name, value, raw, behind, _, more, hattribute, hmore, fun hmem => ?_, rfl⟩
  obtain ⟨a, ha, heq⟩ := List.mem_map.mp hmem
  exact hnew (List.any_eq_true.mpr ⟨a, ha, decide_eq_true heq⟩)

theorem areAttributes_of_attributes? {fuel line line' : Nat} {cs rest : List Char} {closed : Bool}
    {as : List (String × String)} (h : attributes? fuel line cs = some (as, line', closed, rest)) :
    AreAttributes as ∧ ∀ a ∈ as, ∀ c ∈ a.2.toList, isXmlChar c = true := by
  induction fuel generalizing line cs as with
  | zero => cases h
  | succ fuel ih =>
      obtain rfl | ⟨name, value, raw, behind, line'', more, hattribute, hmore, hnew, rfl⟩ :=
        attributes?_cases h
      · exact ⟨.nil, List.forall_mem_nil _⟩
      · obtain ⟨hattributes, hvalues⟩ := ih hmore
        obtain ⟨hname, hvalue⟩ := isName_of_attribute? hattribute
        refine ⟨⟨?_, List.nodup_cons.mpr ⟨hnew, hattributes.distinct⟩⟩, ?_⟩
        · exact List.forall_mem_cons.mpr ⟨hname, hattributes.names⟩
        · exact List.forall_mem_cons.mpr ⟨hvalue, hvalues⟩

/-- A start tag among the pieces of a text can say what it says. -/
def Token.IsSound : Token → Prop
  | .start name as _ _ => IsStart name as
  | .finish _ => True
  | .text _ => True

theorem token_of_passOver? {line : Nat} {cs : List Char} {opening ending : String} {step : Step}
    (h : passOver? line cs opening ending = some step) : step.token = none := by
  obtain ⟨_, -, h⟩ := Option.bind_eq_some_iff.mp h
  cases h
  rfl

theorem token_of_documentType? {line : Nat} {cs : List Char} {step : Step}
    (h : documentType? line cs = some step) : step.token = none := by
  obtain ⟨⟨outside, behind⟩, -, h⟩ := Option.bind_eq_some_iff.mp h
  dsimp only at h
  split at h
  · obtain ⟨_, -, h⟩ := Option.bind_eq_some_iff.mp h
    obtain ⟨_, -, h⟩ := Option.bind_eq_some_iff.mp h
    cases h
    rfl
  · cases h
    rfl

theorem isSound_of_markup? {line : Nat} {cs : List Char} {step : Step}
    (h : markup? line cs = some step) : ∀ t ∈ step.token, t.IsSound := by
  rw [markup?] at h
  split at h
  · simp [token_of_passOver? h]
  split at h
  · simp [token_of_passOver? h]
  split at h
  · -- A section of character data.
    obtain ⟨_, -, h⟩ := Option.bind_eq_some_iff.mp h
    dsimp only at h
    split at h
    · cases h
      exact fun t ht => Option.some.inj ht ▸ trivial
    · cases h
  split at h
  · simp [token_of_documentType? h]
  split at h
  · -- An end tag.
    obtain ⟨_, -, h⟩ := Option.bind_eq_some_iff.mp h
    dsimp only at h
    split at h
    · cases h
      exact fun t ht => Option.some.inj ht ▸ trivial
    · cases h
  · obtain ⟨⟨name, behind⟩, hname, h⟩ := Option.bind_eq_some_iff.mp h
    obtain ⟨⟨as, line', closed, rest⟩, hattributes, h⟩ := Option.bind_eq_some_iff.mp h
    cases h
    obtain ⟨hall, hvalues⟩ := areAttributes_of_attributes? hattributes
    intro t ht
    obtain rfl := Option.some.inj ht
    exact ⟨isName_of_name? hname, hall, hvalues⟩

theorem isSound_of_run? {line : Nat} {cs : List Char} {step : Step}
    (h : run? line cs = some step) : ∀ t ∈ step.token, t.IsSound := by
  rw [run?] at h
  split at h
  · cases h
  · obtain ⟨text, -, h⟩ := Option.bind_eq_some_iff.mp h
    cases h
    exact fun t ht => Option.some.inj ht ▸ trivial

theorem isSound_of_tokensFrom {fuel line : Nat} {cs : List Char} {ts : List Token}
    (h : tokensFrom fuel line cs = .ok ts) : ∀ t ∈ ts, t.IsSound := by
  induction fuel generalizing line cs ts with
  | zero =>
      cases cs with
      | nil =>
          cases h
          exact List.forall_mem_nil _
      | cons c cs => cases h
  | succ fuel ih =>
      cases cs with
      | nil =>
          cases h
          exact List.forall_mem_nil _
      | cons c cs =>
          rw [tokensFrom] at h
          split at h
          · cases h
          · next step hstep =>
            have hsound : ∀ t ∈ step.token, t.IsSound := by
              split at hstep
              · exact isSound_of_markup? hstep
              · exact isSound_of_run? hstep
            cases hrest : tokensFrom fuel step.line step.rest with
            | error e =>
                rw [hrest] at h
                cases h
            | ok more =>
                rw [hrest] at h
                obtain rfl := Except.ok.inj h
                intro t ht
                rcases List.mem_append.mp ht with ht | ht
                · exact hsound t (Option.mem_toList.mp ht)
                · exact ih hrest t ht

/-! ## Tags that are read -/

theorem writtenName_readTag (outer : List Declaration) (written : String)
    (as : List (String × String)) (line : Nat) :
    (readTag outer written as line).1.writtenName = written := by
  rcases hsplit : splitName written with ⟨q, n⟩
  have hname := qualified_of_splitName hsplit
  cases q with
  | none => simpa [readTag, hsplit, Tag.writtenName] using hname
  | some q =>
      cases hlookup : lookup? (as.filterMap declaration? ++ outer) (some q) with
      | none => simp [readTag, hsplit, hlookup, Tag.writtenName, qualified]
      | some uri => simpa [readTag, hsplit, hlookup, Tag.writtenName] using hname

/-- A declaration is written as it was read. -/
theorem written_of_declaration? {a : String × String} {d : Declaration}
    (h : declaration? a = some d) : d.written = a := by
  obtain ⟨name, value⟩ := a
  rcases hsplit : splitName name with ⟨q, n⟩
  have hname := qualified_of_splitName hsplit
  cases q with
  | none =>
      simp only [declaration?, hsplit] at h
      split at h
      · next hxmlns =>
        subst hxmlns
        cases h
        exact congrArg (·, value) hname
      · cases h
  | some q =>
      simp only [declaration?, hsplit] at h
      split at h
      · next hxmlns =>
        subst hxmlns
        cases h
        have hchars : "xmlns:" ++ n = qualified (some "xmlns") n := by
          rw [← String.toList_inj]
          simp [qualified]
        exact congrArg (·, value) (hchars.trans hname)
      · cases h

theorem written_filterMap (as : List (String × String)) :
    (as.filterMap declaration?).map Declaration.written =
      as.filter (fun a => (declaration? a).isSome) := by
  induction as with
  | nil => rfl
  | cons a as ih =>
      cases hdeclaration : declaration? a with
      | none =>
          rw [List.filterMap_cons_none hdeclaration, ih,
            List.filter_cons_of_neg (by simp [hdeclaration])]
      | some d =>
          rw [List.filterMap_cons_some hdeclaration, List.map_cons, ih,
            List.filter_cons_of_pos (by simp [hdeclaration]), written_of_declaration? hdeclaration]

/-- Declarations are written in front of the other attributes. -/
theorem writtenAttributes_readTag (outer : List Declaration) (written : String)
    (as : List (String × String)) (line : Nat) :
    (readTag outer written as line).1.writtenAttributes =
      as.filter (fun a => (declaration? a).isSome) ++
        as.filter (fun a => (declaration? a).isNone) := by
  have hsame : Attribute.written ∘ readAttribute (as.filterMap declaration? ++ outer) = id :=
    funext fun a => written_readAttribute _ a
  rw [Tag.writtenAttributes, readTag_declarations, readTag_attributes, written_filterMap,
    List.map_map, hsame, List.map_id]

theorem perm_writtenAttributes_readTag (outer : List Declaration) (written : String)
    (as : List (String × String)) (line : Nat) :
    (readTag outer written as line).1.writtenAttributes.Perm as := by
  have hnone : (fun a => (declaration? a).isNone) =
      fun a : String × String => !(declaration? a).isSome :=
    funext fun a => (Option.not_isSome _).symm
  rw [writtenAttributes_readTag, hnone]
  exact List.filter_append_perm _ as

/-- The order of the declarations among the other attributes does not matter. -/
theorem readTag_writtenAttributes (outer : List Declaration) (written : String)
    (as : List (String × String)) (line : Nat) :
    readTag outer written (readTag outer written as line).1.writtenAttributes line =
      readTag outer written as line := by
  have hdeclared : (readTag outer written as line).1.writtenAttributes.filterMap declaration? =
      as.filterMap declaration? := by
    have hnone : (as.filter (fun a => (declaration? a).isNone)).filterMap declaration? = [] :=
      List.filterMap_eq_nil_iff.mpr fun a ha =>
        Option.isNone_iff_eq_none.mp (List.mem_filter.mp ha).2
    rw [writtenAttributes_readTag, List.filterMap_append, ← written_filterMap, filterMap_written,
      hnone, List.append_nil]
  have hothers : (readTag outer written as line).1.writtenAttributes.filter
      (fun a => (declaration? a).isNone) = as.filter (fun a => (declaration? a).isNone) := by
    have hnone : (as.filter (fun a => (declaration? a).isSome)).filter
        (fun a => (declaration? a).isNone) = [] := by
      rw [List.filter_eq_nil_iff]
      intro a ha
      simpa using Option.isSome_iff_ne_none.mp (List.mem_filter.mp ha).2
    rw [writtenAttributes_readTag, List.filter_append, hnone, List.nil_append, List.filter_filter]
    simp only [Bool.and_self]
  generalize (readTag outer written as line).1.writtenAttributes = bs at hdeclared hothers
  simp only [readTag, hdeclared, hothers]

/-- What can stand in a start tag is read as a legible tag. -/
theorem IsStart.isLegible_readTag {name : String} {as : List (String × String)}
    (h : IsStart name as) (outer : List Declaration) (line : Nat) :
    (readTag outer name as line).1.isLegible outer = true := by
  have hperm := perm_writtenAttributes_readTag outer name as line
  have hlegible : (readTag outer name as line).1.Legible outer :=
    { name := by rw [writtenName_readTag, h.name]
      attributes :=
        { names := fun a ha => h.attributes.names a (hperm.mem_iff.mp ha)
          distinct := (hperm.map Prod.fst).nodup_iff.mpr h.attributes.distinct }
      values := fun a ha => h.values a (hperm.mem_iff.mp ha)
      read := by rw [writtenName_readTag, readTag_line, readTag_writtenAttributes] }
  exact hlegible.isLegible

/-! ## Reading over the pieces -/

/-- The declarations in force inside the innermost of these open elements. -/
def scopeIn (opened : List Open) : List Declaration :=
  (opened.head?.map Open.scope).getD []

/-- The open elements are legible where they stand, and so is what they hold already. -/
def AreOpen : List Open → Prop
  | [] => True
  | o :: outer =>
    o.tag.isLegible (scopeIn outer) = true ∧ o.scope = o.tag.declarations ++ scopeIn outer ∧
      (∀ e ∈ o.children, e.isLegible o.scope = true) ∧ AreOpen outer

namespace Progress

/-- Everything that has been read is legible. -/
structure Sound (p : Progress) : Prop where
  opened : AreOpen p.opened
  root : ∀ e ∈ p.root, e.isLegible [] = true

variable {p p' : Progress}

theorem Sound.add (h : p.Sound) {e : Element} (he : e.isLegible (scopeIn p.opened) = true)
    (hadd : p.add e = some p') : p'.Sound := by
  obtain ⟨opened, root⟩ := p
  cases opened with
  | nil =>
      rw [Progress.add] at hadd
      dsimp only at hadd
      split at hadd
      · cases hadd
      · obtain rfl := Option.some.inj hadd
        exact ⟨trivial, fun e' he' => Option.some.inj he' ▸ he⟩
  | cons o outer =>
      obtain rfl := Option.some.inj hadd
      obtain ⟨htag, hscope, hchildren, houter⟩ := h.opened
      exact ⟨⟨htag, hscope, List.forall_mem_cons.mpr ⟨he, hchildren⟩, houter⟩, h.root⟩

/-- An element is legible once it is closed. -/
theorem isLegible_close {o : Open} {outer : List Open} (h : AreOpen (o :: outer)) :
    o.close.isLegible (scopeIn outer) = true := by
  obtain ⟨htag, hscope, hchildren, -⟩ := h
  refine Bool.and_eq_true_iff.mpr ⟨htag, Element.areLegible_iff.mpr fun e he => ?_⟩
  rw [← hscope]
  exact hchildren e (List.mem_reverse.mp he)

theorem Sound.take (h : p.Sound) {t : Token} (ht : t.IsSound) (htake : p.take t = some p') :
    p'.Sound := by
  obtain ⟨opened, root⟩ := p
  cases t with
  | text cs =>
      cases opened with
      | nil =>
          rw [Progress.take] at htake
          dsimp only at htake
          split at htake
          · obtain rfl := Option.some.inj htake
            exact h
          · cases htake
      | cons o outer =>
          obtain rfl := Option.some.inj htake
          exact ⟨h.opened, h.root⟩
  | start written as line closed =>
      have hopen : AreOpen ({
          written := written
          tag := (readTag (scopeIn opened) written as line).1
          scope := (readTag (scopeIn opened) written as line).2 } :: opened) :=
        ⟨ht.isLegible_readTag _ line, readTag_scope _ _ _ _, List.forall_mem_nil _, h.opened⟩
      rw [Progress.take] at htake
      dsimp only at htake
      split at htake
      · exact h.add (isLegible_close hopen) htake
      · split at htake
        · cases htake
        · obtain rfl := Option.some.inj htake
          exact ⟨hopen, h.root⟩
  | finish written =>
      cases opened with
      | nil => cases htake
      | cons o outer =>
          rw [Progress.take] at htake
          dsimp only at htake
          split at htake
          · have houter : Sound { opened := outer, root := root } := ⟨h.opened.2.2.2, h.root⟩
            exact houter.add (isLegible_close h.opened) htake
          · cases htake

theorem Sound.run (h : p.Sound) {ts : List Token} (hts : ∀ t ∈ ts, t.IsSound)
    (hrun : p.run ts = some p') : p'.Sound := by
  induction ts generalizing p with
  | nil =>
      obtain rfl := Option.some.inj hrun
      exact h
  | cons t ts ih =>
      rw [Progress.run, List.foldlM_cons] at hrun
      obtain ⟨q, hq, hrest⟩ := Option.bind_eq_some_iff.mp hrun
      obtain ⟨ht, hts⟩ := List.forall_mem_cons.mp hts
      exact ih (h.take ht hq) hts hrest

end Progress

/-! ## Elements and documents -/

/-- The root that is read from a text is legible. -/
theorem Element.isLegible_of_ofText? {text : String} {e : Element} (h : ofText? text = .ok e) :
    e.isLegible [] = true := by
  rw [ofText?] at h
  cases htokens : tokens text with
  | error malformed =>
      rw [htokens] at h
      cases h
  | ok ts =>
      rw [htokens] at h
      dsimp only [bind, Except.bind] at h
      split at h
      · next root hroot =>
        obtain rfl := Except.ok.inj h
        obtain ⟨p, hrun, hfinished⟩ := Option.bind_eq_some_iff.mp hroot
        have hstart : Progress.Sound {} := ⟨trivial, by simp⟩
        have hsound := hstart.run (isSound_of_tokensFrom htokens) hrun
        rw [Progress.finished?] at hfinished
        split at hfinished
        · exact hsound.root _ hfinished
        · cases hfinished
      · cases h

/-- An element that was read is written down as far as a text carries it, and read again. -/
theorem Element.ofText?_markup {text : String} {e : Element} (h : ofText? text = .ok e) :
    ∃ again, ofText? e.markup = .ok again ∧ again.unlined = e.written.carried.resolve [] :=
  (writes_markup (isLegible_of_ofText? h)).ofText?

/-- A document that was read gives its elements as they are, if a text can carry them. -/
theorem Document.serializes_ofText? {text : String} {d : Document} (h : ofText? text = .ok d)
    (hcarried : ∀ root ∈ d.root, root.written.isCarried = true) : d.Serializes := by
  cases hread : Element.ofText? text with
  | error malformed =>
      rw [ofText?, hread] at h
      cases h
  | ok root =>
      rw [ofText?_eq_ofRoot hread] at h
      obtain rfl := Except.ok.inj h
      exact serializes_ofRoot (Element.isLegible_of_ofText? hread) (hcarried root rfl)

end VideoCatalog.Xml
