import Mathlib.Data.List.Forall2
import VideoCatalog.Proofs.Xml.Scope

/-!
# Texts that stand for an element

`Writes text w` says that, wherever it stands in a document, the text is read as one element: the
written element `w`, resolved in the declarations in force there. Such texts can be put together:
behind a start tag and some character data, and in front of the end tag, they are the children of an
element that is written in the same sense (`Writes.block`). A text that is a whole document is read
as its element in no scope at all (`Writes.ofText?`).

The writer of this library writes every element of a legible document in this sense, up to what
attributes and character data can carry (`writes_markup`).
-/

namespace VideoCatalog.Xml

/-! ## Reading on -/

theorem Takes.append {p : Progress} {ts us : List Token} {Q : Progress → Prop}
    (h : Takes p ts (fun p' => Takes p' us Q)) : Takes p (ts ++ us) Q := by
  intro found hfound
  obtain ⟨first, second, rfl, hfirst, hsecond⟩ := List.map_eq_append_iff.mp hfound
  obtain ⟨p', hrun, htakes⟩ := h first hfirst
  obtain ⟨p'', hrun', hQ⟩ := htakes second hsecond
  refine ⟨p'', ?_, hQ⟩
  rw [Progress.run, List.foldlM_append]
  exact Option.bind_eq_some_iff.mpr ⟨p', hrun, hrun'⟩

theorem Takes.imp {p : Progress} {ts : List Token} {Q R : Progress → Prop} (h : Takes p ts Q)
    (hQR : ∀ p', Q p' → R p') : Takes p ts R := by
  intro found hfound
  obtain ⟨p', hrun, hQ⟩ := h found hfound
  exact ⟨p', hrun, hQR p' hQ⟩

/-- The declarations in force where reading stands. -/
def Progress.declarations (p : Progress) : List Declaration :=
  (p.opened.head?.map Open.scope).getD []

/-! ## Fragments -/

/-- Wherever it stands, the text is read as the written element, resolved in the declarations in
force there. -/
structure Writes (text : String) (w : Written) : Prop where
  begins : ∃ cs, text.toList = '<' :: cs
  lines : '\r' ∉ text.toList
  reads : ∃ ts, (∀ rest us, Lexes rest us → Lexes (text.toList ++ rest) (ts ++ us)) ∧
    ∀ p : Progress, p.Ready →
      Takes p ts (fun p' => ∃ e, e.unlined = w.resolve p.declarations ∧ p.add e = some p')

/-- Several texts one after the other become the children of the element still open. -/
theorem exists_pieces_of_writes {texts : List String} {ws : List Written}
    (h : List.Forall₂ Writes texts ws) :
    ∃ ts, (∀ rest us, Lexes rest us → Lexes (texts.flatMap String.toList ++ rest) (ts ++ us)) ∧
      ∀ (o : Open) (outer : List Open) (root : Option Element),
        Takes { opened := o :: outer, root := root } ts (fun p' => ∃ es,
          Element.allUnlined es = Written.resolveAll o.scope ws ∧
            p' = { opened := { o with children := es.reverse ++ o.children } :: outer,
                   root := root }) := by
  induction h with
  | nil => exact ⟨[], fun _ _ hrest => hrest, fun o outer root => Takes.nil ⟨[], rfl, rfl⟩⟩
  | @cons text w texts ws hfirst _ ih =>
      obtain ⟨ts, hlexes, htakes⟩ := hfirst.reads
      obtain ⟨us, hlexes', htakes'⟩ := ih
      refine ⟨ts ++ us, fun rest vs hrest => ?_, fun o outer root => ?_⟩
      · rw [List.flatMap_cons, List.append_assoc, List.append_assoc]
        exact hlexes _ _ (hlexes' rest vs hrest)
      · have hready : Progress.Ready { opened := o :: outer, root := root } := rfl
        refine Takes.append ((htakes _ hready).imp fun p' => ?_)
        rintro ⟨e, he, hadd⟩
        rw [Progress.add_opened] at hadd
        obtain rfl := Option.some.inj hadd
        refine (htakes' { o with children := e :: o.children } outer root).imp fun p'' => ?_
        rintro ⟨es, hes, rfl⟩
        refine ⟨e :: es, ?_, by simp⟩
        rw [Element.allUnlined, he, hes]
        rfl

/-- A row of such texts in front of a tag begins with a tag. -/
theorem exists_cons_of_writes {texts : List String} {ws : List Written}
    (h : List.Forall₂ Writes texts ws) (cs : List Char) :
    ∃ tail, texts.flatMap String.toList ++ '<' :: cs = '<' :: tail := by
  cases h with
  | nil => exact ⟨cs, rfl⟩
  | cons hfirst _ =>
      obtain ⟨tail, htail⟩ := hfirst.begins
      exact ⟨_, by rw [List.flatMap_cons, htail, List.cons_append, List.cons_append]⟩

theorem return_not_mem_of_writes {texts : List String} {ws : List Written}
    (h : List.Forall₂ Writes texts ws) : '\r' ∉ texts.flatMap String.toList := by
  induction h with
  | nil => exact List.not_mem_nil
  | cons hfirst _ ih =>
      rw [List.flatMap_cons, List.mem_append, not_or]
      exact ⟨hfirst.lines, ih⟩

section Composition

variable {name : String} {as : List (String × String)}

/-- The characters of an element with some character data and other elements inside. -/
def blockChars (name : String) (as : List (String × String)) (value : String)
    (texts : List String) : List Char :=
  '<' :: (name.toList ++ (attributeChars as ++ (tagEnd false ++ ((escape .content value).toList ++
    (texts.flatMap String.toList ++ '<' :: '/' :: (name.toList ++ ['>']))))))

/-- The characters of an element with nothing inside. -/
def closedChars (name : String) (as : List (String × String)) : List Char :=
  '<' :: (name.toList ++ (attributeChars as ++ tagEnd true))

/-- A start tag, character data, other elements and an end tag write an element. -/
theorem Writes.block (hname : isName name = true) (has : AreAttributes as) (value : String)
    {texts : List String} {ws : List Written} (hall : List.Forall₂ Writes texts ws)
    {text : String} (htext : text.toList = blockChars name as value texts) :
    Writes text (.mk name (asRead as) (clean value) ws) where
  begins := ⟨_, htext⟩
  lines := by
    have hvalue : '\r' ∉ (escape .content value).toList := not_mem_escape value (.inl (by simp))
    have hinside := return_not_mem_of_writes hall
    simp only [htext, blockChars, tagEnd, List.mem_cons, List.mem_append, not_or]
    simp [return_not_mem_isName hname, return_not_mem_attributeChars has, hvalue, hinside]
  reads := by
    obtain ⟨ts, hlexes, htakes⟩ := exists_pieces_of_writes hall
    refine ⟨.start name (asRead as) 1 false :: (Markup.textPieces value ++ (ts ++ [.finish name])),
      fun rest us hrest => ?_, fun p hready => ?_⟩
    · have hinside := hlexes _ _ (Lexes.finish hname hrest)
      obtain ⟨tail, htail⟩ := exists_cons_of_writes hall ('/' :: (name.toList ++ '>' :: rest))
      rw [htail] at hinside
      have hcontent := Markup.textPieces_lexes value hinside
      rw [← htail] at hcontent
      have htag := Lexes.tag hname has false hcontent
      simpa [htext, blockChars] using htag
    · -- The element is opened, takes in its text and its children, and is put in place.
      refine Takes.start fun line => ?_
      rcases htag : readTag p.declarations name (asRead as) line with ⟨tag, scope⟩
      refine ⟨_, Progress.take_start hready htag, ?_⟩
      refine textPieces_takes value rfl fun found hfound => ?_
      refine Takes.append ((htakes _ _ _).imp fun p' => ?_)
      rintro ⟨es, hes, rfl⟩
      obtain ⟨p', hp'⟩ := Progress.exists_add hready (.mk tag (clean value) es)
      have hclose : Open.close
          { written := name, tag := tag, scope := scope, texts := found,
            children := es.reverse ++ [] } = .mk tag (clean value) es := by
        rw [Open.close, hfound, List.append_nil, List.reverse_reverse]
      have hread : (Element.mk tag (clean value) es).unlined =
          Written.resolve p.declarations (.mk name (asRead as) (clean value) ws) := by
        have hunlined := readTag_unlined p.declarations name (asRead as) line
        have hscope : (readTag p.declarations name (asRead as) 1).2 = scope :=
          congrArg Prod.snd htag
        rw [htag] at hunlined
        rw [Element.unlined, Written.resolve, ← hunlined, hscope, hes]
      refine Takes.finish ((Progress.take_finish rfl _ _).trans ?_) (Takes.nil ⟨_, hread, hp'⟩)
      rw [hclose]
      exact hp'

/-- A start tag that is an end tag as well writes an element with nothing inside. -/
theorem Writes.closed (hname : isName name = true) (has : AreAttributes as) {text : String}
    (htext : text.toList = closedChars name as) : Writes text (.mk name (asRead as) "" []) where
  begins := ⟨_, htext⟩
  lines := by
    simp [htext, closedChars, tagEnd, return_not_mem_isName hname,
      return_not_mem_attributeChars has]
  reads := by
    refine ⟨[.start name (asRead as) 1 true], fun rest us hrest => ?_, fun p hready => ?_⟩
    · have htag := Lexes.tag hname has true hrest
      simpa [htext, closedChars] using htag
    · refine Takes.start fun line => ?_
      obtain ⟨p', hp'⟩ := Progress.exists_add hready
        (.mk (readTag p.declarations name (asRead as) line).1 "" [])
      refine ⟨p', (Progress.take_closed rfl).trans hp', Takes.nil ⟨_, ?_, hp'⟩⟩
      rw [Element.unlined, readTag_unlined, Written.resolve]
      rfl

end Composition

/-- A document that consists of such a text has that element for its root. -/
theorem Writes.ofText? {text : String} {w : Written} (h : Writes text w) :
    ∃ e, Element.ofText? text = .ok e ∧ e.unlined = w.resolve [] := by
  obtain ⟨ts, hlexes, htakes⟩ := h.reads
  have hchars := hlexes [] [] Lexes.nil
  rw [List.append_nil, List.append_nil] at hchars
  obtain ⟨found, htokens, hfound⟩ := hchars 1 (text.toList.length + 1) (Nat.le_succ _)
  have hready : Progress.Ready {} := rfl
  obtain ⟨p', hrun, e, he, hadd⟩ := htakes {} hready found hfound
  obtain rfl := Option.some.inj hadd
  refine ⟨e, ?_, he⟩
  have hread : (found.foldlM Progress.take {}).bind Progress.finished? = some e := by
    rw [show found.foldlM Progress.take {} = some _ from hrun]
    rfl
  have hpieces : tokens text = .ok found := by
    rw [tokens, Markup.normalizeLines_of_not_mem h.lines]
    exact htokens
  simp only [Element.ofText?, hpieces, bind, Except.bind, hread]

/-! ## The texts of a document -/

/-- The texts that a document gives for its elements stand for them. -/
def Document.Serializes (d : Document) : Prop :=
  ∀ c text, d.Holds c → d.serialize c.path = some text → Writes text c.element.written

mutual
/-- The element as a text carries it: white space in attributes as blanks, and U+FFFD for what
documents cannot hold. -/
def Written.carried : Written → Written
  | .mk name as text children => .mk name (asRead as) (clean text) (allCarried children)

/-- The elements as a text carries them. -/
def Written.allCarried : List Written → List Written
  | [] => []
  | w :: ws => carried w :: allCarried ws
end

theorem toList_join_attributeText (as : List (String × String)) :
    (String.join (as.map (fun a => attributeText a.1 a.2))).toList = attributeChars as := by
  rw [String.toList_join, List.flatMap_map, attributeChars]

theorem Declaration.text_eq (d : Declaration) :
    d.text = attributeText d.written.1 d.written.2 := by
  obtain ⟨qualifier, uri⟩ := d
  cases qualifier <;> rfl

/-- A legible start tag is written as what it says. -/
theorem Tag.Legible.toList_text {outer : List Declaration} {t : Tag} (h : t.Legible outer) :
    t.text.toList = t.writtenName.toList ++ attributeChars t.writtenAttributes := by
  have hdeclarations : t.declarations.map Declaration.text =
      (t.declarations.map Declaration.written).map (fun a => attributeText a.1 a.2) := by
    rw [List.map_map]
    exact List.map_congr_left fun d _ => d.text_eq
  have hattributes :
      t.attributes.map (fun a => attributeText (qualified a.qualifier a.name) a.value) =
        (t.attributes.map Attribute.written).map (fun a => attributeText a.1 a.2) := by
    rw [List.map_map]
    refine List.map_congr_left fun a ha => ?_
    simp [Attribute.written, h.qualifier_eq ha]
  rw [Tag.text, String.toList_append, String.toList_append, hdeclarations, hattributes,
    toList_join_attributeText, toList_join_attributeText, Tag.writtenAttributes, attributeChars,
    attributeChars, attributeChars, List.flatMap_append, List.append_assoc, Tag.writtenName]

mutual
/-- A legible element is written as far as a text can carry it. -/
theorem writes_markup {outer : List Declaration} :
    ∀ {e : Element}, e.isLegible outer = true → Writes e.markup e.written.carried
  | .mk tag text children, h => by
      obtain ⟨htag, hchildren⟩ := Bool.and_eq_true_iff.mp h
      have hlegible := Tag.legible_of_isLegible htag
      obtain ⟨texts, hmarkups, hall⟩ := writes_markups hchildren
      rw [Element.written, Written.carried, Element.markup]
      split
      · next hempty =>
        obtain ⟨rfl, hnone⟩ : text = "" ∧ children = [] := by simpa using hempty
        subst hnone
        refine Writes.closed hlegible.name hlegible.attributes ?_
        simp [hlegible.toList_text, closedChars, tagEnd]
      · refine Writes.block hlegible.name hlegible.attributes text hall ?_
        simp [hlegible.toList_text, blockChars, tagEnd, hmarkups, String.toList_join,
          Tag.writtenName]

/-- Several legible elements are written one after the other. -/
theorem writes_markups {outer : List Declaration} :
    ∀ {es : List Element}, Element.areLegible outer es = true →
      ∃ texts, Element.markups es = String.join texts ∧
        List.Forall₂ Writes texts (Written.allCarried (Element.allWritten es))
  | [], _ => ⟨[], rfl, .nil⟩
  | e :: es, h => by
      obtain ⟨he, hes⟩ := Bool.and_eq_true_iff.mp h
      obtain ⟨texts, hmarkups, hall⟩ := writes_markups hes
      refine ⟨e.markup :: texts, ?_, .cons (writes_markup he) hall⟩
      rw [Element.markups, hmarkups, ← String.toList_inj, String.toList_append, String.toList_join,
        String.toList_join, List.flatMap_cons]
end

mutual
/-- Whether a text carries all of the element: its values are plain, and documents can hold its
character data. -/
def Written.isCarried : Written → Bool
  | .mk _ as text children =>
    as.all (fun a => a.2.toList.all (fun c => isXmlChar c && c ≠ '\t' && c ≠ '\n')) &&
      text.toList.all isXmlChar && allAreCarried children

/-- Whether a text carries all of these elements. -/
def Written.allAreCarried : List Written → Bool
  | [] => true
  | w :: ws => isCarried w && allAreCarried ws
end

theorem asRead_of_plain {as : List (String × String)}
    (h : ∀ a ∈ as, ∀ c ∈ a.2.toList, isXmlChar c = true ∧ c ≠ '\t' ∧ c ≠ '\n') :
    asRead as = as := by
  have hsame : ∀ a ∈ as, (a.1, inAttribute a.2) = a := by
    intro a ha
    rw [inAttribute_of_plain (h a ha)]
  rw [asRead, List.map_congr_left hsame, List.map_id']

mutual
theorem Written.carried_eq : ∀ {w : Written}, w.isCarried = true → w.carried = w
  | .mk name as text children, h => by
      simp only [isCarried, Bool.and_eq_true, List.all_eq_true, decide_eq_true_eq] at h
      obtain ⟨⟨hvalues, htext⟩, hchildren⟩ := h
      have has : asRead as = as := asRead_of_plain fun a ha c hc => by
        obtain ⟨⟨hxml, htab⟩, hfeed⟩ := hvalues a ha c hc
        exact ⟨hxml, htab, hfeed⟩
      rw [carried, has, clean_of_isXmlChar htext, allCarried_eq hchildren]

theorem Written.allCarried_eq : ∀ {ws : List Written}, allAreCarried ws = true → allCarried ws = ws
  | [], _ => rfl
  | w :: ws, h => by
      obtain ⟨hw, hws⟩ := Bool.and_eq_true_iff.mp h
      rw [allCarried, carried_eq hw, allCarried_eq hws]
end

theorem Element.isCarried_of_mem {es : List Element} {e : Element}
    (h : Written.allAreCarried (allWritten es) = true) (he : e ∈ es) :
    e.written.isCarried = true := by
  induction es with
  | nil => exact nomatch he
  | cons e' es ih =>
      obtain ⟨hfirst, hrest⟩ := Bool.and_eq_true_iff.mp h
      rcases List.mem_cons.mp he with rfl | he
      · exact hfirst
      · exact ih hrest he

theorem Cursor.isCarried_child {c below : Cursor} (h : c.element.written.isCarried = true)
    (hbelow : below ∈ c.children) : below.element.written.isCarried = true := by
  obtain ⟨i, -, hi⟩ := exists_getElem?_of_mem_children hbelow
  rw [getElem?_children] at hi
  obtain ⟨e, he, rfl⟩ := Option.map_eq_some_iff.mp hi
  obtain ⟨element, ancestors, path⟩ := c
  obtain ⟨tag, text, children⟩ := element
  exact Element.isCarried_of_mem (Bool.and_eq_true_iff.mp h).2 (List.mem_of_getElem? he)

/-- The document with this root, each of its elements written on one line. -/
def Document.ofRoot (root : Element) : Document where
  root := some root
  serialize := fun path =>
    (Document.at? { root := some root } path).map (fun c => c.element.markup)

/-- This is the document that a text with this root holds. -/
theorem Document.ofText?_eq_ofRoot {text : String} {root : Element}
    (h : Element.ofText? text = .ok root) : Document.ofText? text = .ok (ofRoot root) := by
  rw [Document.ofText?, h]
  rfl

/-- A legible document whose values and texts can be carried is written as it is. -/
theorem Document.serializes_ofRoot {root : Element} (hlegible : root.isLegible [] = true)
    (hcarried : root.written.isCarried = true) : (ofRoot root).Serializes := by
  intro c text hc htext
  have helement : c.element.written.isCarried = true :=
    hc.induction rfl hcarried Cursor.isCarried_child
  have hat : Document.at? { root := some root } c.path = some c := hc
  have hserialize : (ofRoot root).serialize c.path = some c.element.markup :=
    congrArg (Option.map fun c : Cursor => c.element.markup) hat
  rw [hserialize] at htext
  obtain rfl := Option.some.inj htext
  have hwrites := writes_markup (hc.legible rfl hlegible).element
  rwa [Written.carried_eq helement] at hwrites

end VideoCatalog.Xml
