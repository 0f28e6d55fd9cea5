import VideoCatalog.Proofs.Xml.Layout
import VideoCatalog.Xml.Reader

/-!
# The tree of a written document

`Shows space part e` says that the element `e` shows a written part where `space` is the default
namespace around it: it bears the name in that namespace and no attribute; a leaf has the text that
was written, as far as a document carries it, and no children; a block has nothing but blanks for a
text, and one child for each of its parts, in order. No text that is written can thus add or take
away an element.

`Takes p ts Q` says that reading goes on from `p` over the pieces `ts`, lines aside, and ends where
`Q` holds. By induction over the part, its pieces put one element in place that shows it
(`pieces_takes`), and so the root of a whole document shows the part that was written
(`ofText?_document`).
-/

namespace VideoCatalog.Xml

/-! ## Elements that show a part -/

/-- The element has this name in this namespace, and no attribute. -/
structure Bears (space : Option String) (name : String) (e : Element) : Prop where
  name : e.name = name
  space : e.uri = space
  attributes : e.tag.attributes = []

/-- The default namespace inside an element, given the one around it and the one it declares. -/
def spaceInside (space : Option String) : Option String → Option String
  | some uri => some uri
  | none => space

mutual
/-- The element shows the part. -/
def Shows (space : Option String) : Markup → Element → Prop
  | .leaf name value, e => Bears space name e ∧ e.text = clean value ∧ e.children = []
  | .empty name, e => Bears space name e ∧ e.text = "" ∧ e.children = []
  | .block name uri content, e =>
    Bears (spaceInside space uri) name e ∧ (∀ c ∈ e.text.toList, isGap c = true) ∧
      ShowAll (spaceInside space uri) content e.children

/-- The elements show the parts, one each, in order. -/
def ShowAll (space : Option String) : List Markup → List Element → Prop
  | [], [] => True
  | part :: parts, e :: es => Shows space part e ∧ ShowAll space parts es
  | _, _ => False
end

/-! ## Reading over pieces -/

/-- Where reading stands after some more pieces. -/
def Progress.run (p : Progress) (ts : List Token) : Option Progress :=
  ts.foldlM Progress.take p

/-- Reading goes on from here over these pieces, lines aside, and ends where this holds. -/
def Takes (p : Progress) (ts : List Token) (Q : Progress → Prop) : Prop :=
  ∀ found : List Token, found.map Token.unlined = ts → ∃ p', p.run found = some p' ∧ Q p'

theorem Takes.nil {p : Progress} {Q : Progress → Prop} (h : Q p) : Takes p [] Q := by
  intro found hfound
  obtain rfl := List.map_eq_nil_iff.mp hfound
  exact ⟨p, rfl, h⟩

theorem Takes.cons {p : Progress} {t : Token} {ts : List Token} {Q : Progress → Prop}
    (h : ∀ t', t'.unlined = t → ∃ p', p.take t' = some p' ∧ Takes p' ts Q) :
    Takes p (t :: ts) Q := by
  intro found hfound
  obtain ⟨t', rest, rfl, ht, hrest⟩ := List.map_eq_cons_iff.mp hfound
  obtain ⟨p', hp', htakes⟩ := h t' ht
  obtain ⟨p'', hrun, hQ⟩ := htakes rest hrest
  refine ⟨p'', ?_, hQ⟩
  rw [Progress.run, List.foldlM_cons, hp']
  exact hrun

theorem Takes.text {p p' : Progress} {s : List Char} {ts : List Token} {Q : Progress → Prop}
    (hp : p.take (.text s) = some p') (h : Takes p' ts Q) : Takes p (.text s :: ts) Q := by
  refine Takes.cons fun t ht => ⟨p', ?_, h⟩
  cases t <;> simp only [Token.unlined, reduceCtorEq] at ht
  rw [ht, hp]

theorem Takes.finish {p p' : Progress} {name : String} {ts : List Token} {Q : Progress → Prop}
    (hp : p.take (.finish name) = some p') (h : Takes p' ts Q) :
    Takes p (.finish name :: ts) Q := by
  refine Takes.cons fun t ht => ⟨p', ?_, h⟩
  cases t <;> simp only [Token.unlined, reduceCtorEq] at ht
  rw [ht, hp]

theorem Takes.start {p : Progress} {name : String} {attributes : List (String × String)}
    {closed : Bool} {ts : List Token} {Q : Progress → Prop}
    (h : ∀ line, ∃ p', p.take (.start name attributes line closed) = some p' ∧ Takes p' ts Q) :
    Takes p (.start name attributes 1 closed :: ts) Q := by
  refine Takes.cons fun t ht => ?_
  cases t with
  | start name' attributes' line closed' =>
      simp only [Token.unlined, Token.start.injEq, true_and] at ht
      obtain ⟨rfl, rfl, rfl⟩ := ht
      exact h line
  | finish _ => cases ht
  | text _ => cases ht

/-! ## Start tags -/

/-- The default namespace where reading stands. -/
def Progress.space (p : Progress) : Option String :=
  lookup? ((p.opened.head?.map Open.scope).getD []) none

/-- An element may begin here. -/
def Progress.Ready (p : Progress) : Prop :=
  (p.opened.isEmpty && p.root.isSome) = false

/-- A name without a colon has no qualifier. -/
theorem splitName_of_not_mem {name : String} (h : ':' ∉ name.toList) :
    splitName name = (none, name) := by
  have hcolon : ∀ c ∈ name.toList, decide (c ≠ ':') = true := fun c hc =>
    decide_eq_true fun heq => h (heq ▸ hc)
  have hdrop : name.toList.dropWhile (fun c => c ≠ ':') = [] := by
    rw [← List.append_nil name.toList, List.dropWhile_append_of_pos hcolon]
    rfl
  rw [splitName, hdrop]

theorem splitName_of_isPlainName (name : String) (h : isPlainName name = true) :
    splitName name = (none, name) :=
  splitName_of_not_mem fun hmem => ((isPlainName_iff.mp h).2 _ hmem).2 rfl

/-- What a written start tag means: the name in the default namespace, and no attributes. -/
theorem readTag_written {name : String} (h : isPlainName name = true) (uri : Option String)
    (huri : ∀ u, uri = some u → u ≠ "") (outer : List Declaration) (line : Nat) :
    ∃ tag scope, readTag outer name (Markup.declaredAttributes uri) line = (tag, scope) ∧
      tag.name = name ∧ tag.uri = spaceInside (lookup? outer none) uri ∧ tag.attributes = [] ∧
      lookup? scope none = spaceInside (lookup? outer none) uri := by
  cases uri with
  | none =>
      refine ⟨{ name := name, uri := lookup? outer none, line := line }, outer, ?_, rfl, rfl, rfl,
        rfl⟩
      simp [readTag, Markup.declaredAttributes, splitName_of_isPlainName name h]
  | some u =>
      have hdeclared : declaration? ("xmlns", u) = some { qualifier := none, uri := u } := by
        simp [declaration?, splitName_of_isPlainName "xmlns" (by decide)]
      have hlookup : lookup? ({ qualifier := none, uri := u } :: outer) none = some u := by
        simp [lookup?, huri u rfl]
      refine ⟨{ name := name, uri := some u, line := line, declarations := [⟨none, u⟩] },
        ⟨none, u⟩ :: outer, ?_, rfl, rfl, rfl, hlookup⟩
      simp [readTag, Markup.declaredAttributes, splitName_of_isPlainName name h, hdeclared, hlookup]

/-! ## Parts -/

/-- The element still open has taken in the parts: blanks for a text, and a child for each. -/
structure Open.Filled (space : Option String) (parts : List Markup) (o o' : Open) : Prop where
  tag : o'.tag = o.tag
  written : o'.written = o.written
  scope : o'.scope = o.scope
  texts : ∃ blanks, o'.texts = blanks ++ o.texts ∧ ∀ s ∈ blanks, ∀ c ∈ s, isGap c = true
  children : ∃ es, o'.children = es.reverse ++ o.children ∧ ShowAll space parts es

theorem Open.Filled.refl (space : Option String) (o : Open) : o.Filled space [] o where
  tag := rfl
  written := rfl
  scope := rfl
  texts := ⟨[], rfl, fun _ hs => nomatch hs⟩
  children := ⟨[], rfl, trivial⟩

/-- Blanks and one child more in front. -/
theorem Open.Filled.cons {space : Option String} {part : Markup} {parts : List Markup} {o o' : Open}
    {blanks : List Char} {e : Element} (hblanks : ∀ c ∈ blanks, isGap c = true)
    (he : Shows space part e)
    (h : Open.Filled space parts
      { o with texts := blanks :: o.texts, children := e :: o.children } o') :
    o.Filled space (part :: parts) o' where
  tag := h.tag
  written := h.written
  scope := h.scope
  texts := by
    obtain ⟨more, heq, hmore⟩ := h.texts
    refine ⟨more ++ [blanks], by simp [heq], ?_⟩
    intro s hs
    rcases List.mem_append.mp hs with hs | hs
    · exact hmore s hs
    · obtain rfl := List.mem_singleton.mp hs
      exact hblanks
  children := by
    obtain ⟨es, heq, hshow⟩ := h.children
    exact ⟨e :: es, by simp [heq], he, hshow⟩

theorem isGap_of_mem_lineStart {depth : Nat} {c : Char} (h : c ∈ Markup.lineStart depth) :
    isGap c = true := by
  rcases Markup.mem_lineStart h with rfl | rfl <;> rfl

/-- An element that held nothing when it was opened shows the block, once it has taken in its parts
and the line break in front of its end tag. -/
theorem Open.Filled.shows {space : Option String} {name : String} {uri : Option String}
    {content : List Markup} {tag : Tag} {scope : List Declaration} {o : Open}
    (h : Open.Filled (lookup? scope none) content { written := name, tag := tag, scope := scope } o)
    (hbears : Bears (spaceInside space uri) name (.mk tag "" []))
    (hscope : lookup? scope none = spaceInside space uri) (depth : Nat) :
    Shows space (.block name uri content)
      (Open.close { o with texts := Markup.lineStart depth :: o.texts }) := by
  obtain ⟨blanks, htexts, hblanks⟩ := h.texts
  obtain ⟨es, hchildren, hshow⟩ := h.children
  have hcollected : o.texts = blanks := htexts.trans (List.append_nil _)
  have hclosed : o.children.reverse = es := by
    rw [hchildren, List.append_nil, List.reverse_reverse]
  refine ⟨⟨?_, ?_, ?_⟩, ?_, ?_⟩
  · exact (congrArg Tag.name h.tag).trans hbears.name
  · exact (congrArg Tag.uri h.tag).trans hbears.space
  · exact (congrArg Tag.attributes h.tag).trans hbears.attributes
  · intro c hc
    rw [Open.close, Element.text, String.toList_ofList, List.mem_flatten] at hc
    obtain ⟨s, hs, hcs⟩ := hc
    rcases List.mem_cons.mp (List.mem_reverse.mp hs) with rfl | hs
    · exact isGap_of_mem_lineStart hcs
    · exact hblanks s (hcollected ▸ hs) c hcs
  · rw [← hclosed, hscope] at hshow
    exact hshow

theorem Progress.add_opened (o : Open) (outer : List Open) (root : Option Element) (e : Element) :
    Progress.add { opened := o :: outer, root := root } e =
      some { opened := { o with children := e :: o.children } :: outer, root := root } :=
  rfl

theorem Progress.exists_add {p : Progress} (h : p.Ready) (e : Element) :
    ∃ p', p.add e = some p' := by
  obtain ⟨opened, root⟩ := p
  cases opened with
  | cons o outer => exact ⟨_, rfl⟩
  | nil =>
      have hroot : root.isSome = false := by simpa [Progress.Ready] using h
      exact ⟨{ opened := [], root := some e }, by simp [Progress.add, hroot]⟩

theorem Progress.take_start {p : Progress} (h : p.Ready) {name : String}
    {attributes : List (String × String)} {line : Nat} {tag : Tag} {scope : List Declaration}
    (htag : readTag ((p.opened.head?.map Open.scope).getD []) name attributes line = (tag, scope)) :
    p.take (.start name attributes line false) =
      some { p with opened := { written := name, tag := tag, scope := scope } :: p.opened } := by
  have hready : (p.opened.isEmpty && p.root.isSome) = false := h
  simp [Progress.take, htag, hready]

theorem Progress.take_closed {p : Progress} {name : String}
    {attributes : List (String × String)} {line : Nat} {tag : Tag} {scope : List Declaration}
    (htag : readTag ((p.opened.head?.map Open.scope).getD []) name attributes line = (tag, scope)) :
    p.take (.start name attributes line true) = p.add (.mk tag "" []) := by
  simp [Progress.take, htag, Open.close]

theorem Progress.take_finish {o : Open} {name : String} (h : o.written = name) (outer : List Open)
    (root : Option Element) :
    Progress.take { opened := o :: outer, root := root } (.finish name) =
      Progress.add { opened := outer, root := root } o.close := by
  simp [Progress.take, h]

/-- The text of a leaf is collected in the element still open. -/
theorem textPieces_takes (value : String) {o : Open} {outer : List Open} {root : Option Element}
    {ts : List Token} {Q : Progress → Prop} (htexts : o.texts = [])
    (hrest : ∀ texts, String.ofList texts.reverse.flatten = clean value →
      Takes { opened := { o with texts := texts } :: outer, root := root } ts Q) :
    Takes { opened := o :: outer, root := root } (Markup.textPieces value ++ ts) Q := by
  by_cases hempty : value = ""
  · have hsame : { o with texts := [] } = o := by rw [← htexts]
    have hnone := hrest [] (by rw [hempty]; rfl)
    rw [hsame] at hnone
    rw [Markup.textPieces, if_pos hempty]
    exact hnone
  · rw [Markup.textPieces, if_neg hempty]
    refine Takes.text rfl (hrest ((clean value).toList :: o.texts) ?_)
    rw [htexts, List.reverse_singleton, List.flatten_singleton, String.ofList_toList]

mutual
/-- The pieces of a part put one element in place, and it shows the part. -/
theorem pieces_takes (depth : Nat) :
    ∀ (part : Markup), part.IsProper → ∀ {p : Progress}, p.Ready →
      ∀ {ts : List Token} {Q : Progress → Prop},
        (∀ e p', Shows p.space part e → p.add e = some p' → Takes p' ts Q) →
          Takes p (Markup.pieces depth part ++ ts) Q
  | .leaf name value, hname, p, hready, ts, Q, hrest => by
      rw [Markup.pieces, List.cons_append, List.append_assoc]
      refine Takes.start fun line => ?_
      obtain ⟨tag, scope, htag, hbears, huri, hattributes, -⟩ :=
        readTag_written hname none (by simp) ((p.opened.head?.map Open.scope).getD []) line
      refine ⟨_, Progress.take_start hready htag, ?_⟩
      refine textPieces_takes value rfl fun texts htexts => ?_
      obtain ⟨p', hp'⟩ :=
        Progress.exists_add hready (.mk tag (String.ofList texts.reverse.flatten) [])
      refine Takes.finish ((Progress.take_finish rfl _ _).trans hp') ?_
      exact hrest (.mk tag (String.ofList texts.reverse.flatten) []) p'
        ⟨⟨hbears, huri, hattributes⟩, htexts, rfl⟩ hp'
  | .empty name, hname, p, hready, ts, Q, hrest => by
      refine Takes.start fun line => ?_
      obtain ⟨tag, scope, htag, hbears, huri, hattributes, -⟩ :=
        readTag_written hname none (by simp) ((p.opened.head?.map Open.scope).getD []) line
      obtain ⟨p', hp'⟩ := Progress.exists_add hready (.mk tag "" [])
      refine ⟨p', (Progress.take_closed htag).trans hp', ?_⟩
      exact hrest (.mk tag "" []) p' ⟨⟨hbears, huri, hattributes⟩, rfl, rfl⟩ hp'
  | .block name uri content, ⟨hname, huri, hcontent⟩, p, hready, ts, Q, hrest => by
      rw [Markup.pieces, List.cons_append, List.append_assoc]
      -- The element is opened, filled with its parts, and put in place when its end tag comes.
      refine Takes.start fun line => ?_
      obtain ⟨tag, scope, htag, hbears, hspace, hattributes, hscope⟩ :=
        readTag_written hname uri (fun u hu => (huri u hu).1)
          ((p.opened.head?.map Open.scope).getD []) line
      refine ⟨_, Progress.take_start hready htag, ?_⟩
      refine allPieces_takes (depth + 1) content hcontent fun o hfilled => ?_
      refine Takes.text rfl ?_
      have hwritten :
          ({ o with texts := Markup.lineStart depth :: o.texts } : Open).written = name :=
        hfilled.written
      obtain ⟨p', hp'⟩ := Progress.exists_add hready
        (Open.close { o with texts := Markup.lineStart depth :: o.texts })
      refine Takes.finish ((Progress.take_finish hwritten _ _).trans hp') ?_
      refine hrest _ p' ?_ hp'
      exact hfilled.shows ⟨hbears, hspace, hattributes⟩ hscope depth

/-- The pieces of several parts fill the element that they stand in. -/
theorem allPieces_takes (depth : Nat) :
    ∀ (parts : List Markup), Markup.AreProper parts →
      ∀ {o : Open} {outer : List Open} {root : Option Element} {ts : List Token}
        {Q : Progress → Prop},
        (∀ o', o.Filled (lookup? o.scope none) parts o' →
          Takes { opened := o' :: outer, root := root } ts Q) →
          Takes { opened := o :: outer, root := root } (Markup.allPieces depth parts ++ ts) Q
  | [], _, o, outer, root, ts, Q, hrest => hrest o (.refl _ o)
  | part :: parts, ⟨hpart, hparts⟩, o, outer, root, ts, Q, hrest => by
      rw [Markup.allPieces, List.cons_append, List.append_assoc]
      refine Takes.text rfl ?_
      have hready : Progress.Ready
          { opened := { o with texts := Markup.lineStart depth :: o.texts } :: outer,
            root := root } := rfl
      refine pieces_takes depth part hpart hready fun e p' he hp' => ?_
      rw [Progress.add_opened] at hp'
      obtain rfl := Option.some.inj hp'
      refine allPieces_takes depth parts hparts fun o' hfilled => ?_
      exact hrest o' (hfilled.cons (fun _ hc => isGap_of_mem_lineStart hc) he)
end

/-! ## Whole documents -/

/-- The root of a document that was written shows the part that it was written for. -/
theorem ofText?_document {part : Markup} (h : part.IsProper) :
    ∃ e, Element.ofText? part.document = .ok e ∧ Shows none part e := by
  obtain ⟨found, htokens, hfound⟩ := Markup.tokens_document h
  have hready : Progress.Ready {} := rfl
  have htakes : Takes {} (.text ['\n'] :: (Markup.pieces 0 part ++ [.text ['\n']]))
      (fun p => ∃ e, p.finished? = some e ∧ Shows none part e) := by
    refine Takes.text rfl ?_
    refine pieces_takes 0 part h hready fun e p' he hp' => ?_
    obtain rfl := Option.some.inj hp'
    exact Takes.text rfl (Takes.nil ⟨e, rfl, he⟩)
  obtain ⟨p', hrun, e, hfinished, he⟩ := htakes found hfound
  refine ⟨e, ?_, he⟩
  have hread : (found.foldlM Progress.take {}).bind Progress.finished? = some e := by
    rw [show found.foldlM Progress.take {} = some p' from hrun]
    exact hfinished
  simp only [Element.ofText?, htokens, bind, Except.bind, hread]

end VideoCatalog.Xml
