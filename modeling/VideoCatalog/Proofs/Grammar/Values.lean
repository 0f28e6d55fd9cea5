import VideoCatalog.Proofs.Pattern.Standalone
import VideoCatalog.Proofs.Schema.Standalone
import VideoCatalog.Proofs.Xml.Legible

/-!
# Values that survive being written

A value stands between double quotes in a start tag, and is read there in three steps: line ends are
made uniform, white space becomes blanks, and references are resolved. Markup, double quotes and
carriage returns are written as references, so the first two steps pass them by; a tab and a line
feed are written as they are. Hence a value survives exactly if it holds neither of these
(`IsUnbroken`, `attributeValue?_eq_some_iff`), and a start tag with all its declarations and
attributes survives exactly if all their values do (`lexes_tag_iff`).

Standalone grammars are written with such tags: the new root, and a declaration that is moved to the
top level, carry values of the grammar that they come from. What they are read as is the same
exactly if these values are unbroken (`Pattern.exists_root_iff`, `Schema.exists_root_iff`). A tab is
lost in each of these places (`Tabbed.tab_is_lost`).
-/

namespace VideoCatalog

namespace Xml

/-! ## One value -/

/-- The text holds no tab and no line feed. -/
def IsUnbroken (s : String) : Prop :=
  '\t' ∉ s.toList ∧ '\n' ∉ s.toList

instance (s : String) : Decidable (IsUnbroken s) :=
  inferInstanceAs (Decidable (_ ∧ _))

/-- Nothing is read as a tab or a line feed. -/
theorem attributeChar_ne {c d : Char} (h : d = '\t' ∨ d = '\n') : attributeChar c ≠ d := by
  rcases h with rfl | rfl
  all_goals
    unfold attributeChar
    split
    · decide
    · rename_i hspace
      rw [Ne, cleanChar_eq_iff (by decide)]
      rintro ⟨-, rfl⟩
      exact hspace (by decide)

theorem inAttribute_eq_self_iff {s : String} (h : ∀ c ∈ s.toList, isXmlChar c = true) :
    inAttribute s = s ↔ IsUnbroken s := by
  constructor
  · intro hsame
    have hnot : ∀ d, d = '\t' ∨ d = '\n' → d ∉ s.toList := by
      intro d hd hmem
      rw [← hsame, toList_inAttribute] at hmem
      obtain ⟨c, -, hc⟩ := List.mem_map.mp hmem
      exact attributeChar_ne hd hc
    exact ⟨hnot _ (.inl rfl), hnot _ (.inr rfl)⟩
  · rintro ⟨htab, hfeed⟩
    refine inAttribute_of_plain fun c hc => ⟨h c hc, ?_, ?_⟩
    · rintro rfl
      exact htab hc
    · rintro rfl
      exact hfeed hc

/-- A value that is written between quotes is read back exactly if it is unbroken. -/
theorem attributeValue?_eq_some_iff {s : String} (h : ∀ c ∈ s.toList, isXmlChar c = true) :
    attributeValue? (normalizeLines (escape .attribute s).toList) = some s.toList ↔
      IsUnbroken s := by
  have hreturn : '\r' ∉ (escape .attribute s).toList := not_mem_escape s (.inl (by simp))
  rw [Markup.normalizeLines_of_not_mem hreturn, attributeValue?_escape, Option.some_inj,
    String.toList_inj, inAttribute_eq_self_iff h]

/-! ## Start tags -/

/-- The values of the attributes are made of characters that a document can hold. -/
def HaveXmlChars (as : List (String × String)) : Prop :=
  ∀ a ∈ as, ∀ c ∈ a.2.toList, isXmlChar c = true

instance (as : List (String × String)) : Decidable (HaveXmlChars as) :=
  decidable_of_iff (as.all (fun a => a.2.toList.all isXmlChar) = true) (by simp [HaveXmlChars])

theorem asRead_eq_self_iff {as : List (String × String)} (h : HaveXmlChars as) :
    asRead as = as ↔ ∀ a ∈ as, IsUnbroken a.2 := by
  have hid : asRead as = as ↔ as.map (fun a => (a.1, inAttribute a.2)) = as.map id := by
    rw [List.map_id]
    rfl
  rw [hid, List.map_inj_left]
  refine forall₂_congr fun a ha => ?_
  rw [← inAttribute_eq_self_iff (h a ha), Prod.ext_iff]
  exact and_iff_right rfl

/-- Where there is no carriage return, line ends are uniform. -/
theorem normalizeLines_append {cs : List Char} (h : '\r' ∉ cs) (rest : List Char) :
    normalizeLines (cs ++ rest) = cs ++ normalizeLines rest := by
  induction cs with
  | nil => rfl
  | cons c cs ih =>
      obtain ⟨hc, hcs⟩ : '\r' ≠ c ∧ '\r' ∉ cs := by simpa using h
      rw [List.cons_append, normalizeLines, ih hcs, List.cons_append]
      · exact fun _ h _ => hc h.symm
      · exact fun h => hc h.symm

/-- Characters are taken apart into pieces in one way at most. -/
theorem Lexes.unique {cs : List Char} {ts us : List Token} (h : Lexes cs ts) (h' : Lexes cs us) :
    ts = us := by
  obtain ⟨found, hfound, rfl⟩ := h 1 cs.length (Nat.le_refl _)
  obtain ⟨found', hfound', rfl⟩ := h' 1 cs.length (Nat.le_refl _)
  obtain rfl := Except.ok.inj (hfound.symm.trans hfound')
  rfl

end Xml

namespace Grammar

open Xml (Cursor Document Element IsUnbroken Lexes Written)

/-- The attributes that are written for some declarations and attributes. -/
def writtenPairs (ds : List Xml.Declaration) (as : List (String × String)) :
    List (String × String) :=
  ds.map Xml.Declaration.written ++ as

/-- A start tag is read as what it was written for exactly if all its values are unbroken. -/
theorem lexes_tag_iff {name : String} {ds : List Xml.Declaration} {as : List (String × String)}
    (hname : Xml.isName name = true) (has : Xml.AreAttributes (writtenPairs ds as))
    (hvalues : Xml.HaveXmlChars (writtenPairs ds as)) (closed : Bool) {rest : List Char}
    {ts : List Xml.Token} (hrest : Lexes (Xml.normalizeLines rest) ts) :
    Lexes (Xml.normalizeLines ((tagText name ds as).toList ++ (Xml.tagEnd closed ++ rest)))
        (.start name (writtenPairs ds as) 1 closed :: ts) ↔
      ∀ a ∈ writtenPairs ds as, IsUnbroken a.2 := by
  have hchars : (tagText name ds as).toList ++ (Xml.tagEnd closed ++ rest) =
      ('<' :: (name.toList ++ (Xml.attributeChars (writtenPairs ds as) ++ Xml.tagEnd closed))) ++
        rest := by
    rw [toList_tagText]
    simp [writtenPairs]
  have hreturn : '\r' ∉ '<' :: (name.toList ++
      (Xml.attributeChars (writtenPairs ds as) ++ Xml.tagEnd closed)) := by
    have hend : '\r' ∉ Xml.tagEnd closed := by cases closed <;> decide
    simp [Xml.return_not_mem_isName hname, Xml.return_not_mem_attributeChars has, hend]
  have hlexes : Lexes
      (Xml.normalizeLines ((tagText name ds as).toList ++ (Xml.tagEnd closed ++ rest)))
      (.start name (Xml.asRead (writtenPairs ds as)) 1 closed :: ts) := by
    have htag := Lexes.tag hname has closed hrest
    rw [hchars, Xml.normalizeLines_append hreturn]
    simpa using htag
  rw [← Xml.asRead_eq_self_iff hvalues]
  constructor
  · intro hsame
    have htoken := (List.cons.inj (hlexes.unique hsame)).1
    exact (Xml.Token.start.inj htoken).2.1
  · intro hsame
    rwa [hsame] at hlexes

/-- A block that declares a namespace begins with such a tag. -/
theorem blockTag_eq (name uri : String) :
    "<" ++ name ++ Xml.Markup.namespaceText (some uri) =
      tagText name [{ qualifier := none, uri := uri }] [] := by
  rw [← String.toList_inj, toList_tagText]
  simp [Xml.Markup.toList_namespaceText, Xml.Markup.declaredAttributes, Xml.Declaration.written]

theorem lexes_blockTag_iff {name uri : String} (hname : Xml.isName name = true)
    (huri : ∀ c ∈ uri.toList, Xml.isXmlChar c = true) {rest : List Char} {ts : List Xml.Token}
    (hrest : Lexes (Xml.normalizeLines rest) ts) :
    Lexes (Xml.normalizeLines
          (("<" ++ name ++ Xml.Markup.namespaceText (some uri)).toList ++ '>' :: rest))
        (.start name [("xmlns", uri)] 1 false :: ts) ↔
      IsUnbroken uri := by
  have hpairs : writtenPairs [{ qualifier := none, uri := uri }] [] = [("xmlns", uri)] := rfl
  have has : Xml.AreAttributes (writtenPairs [{ qualifier := none, uri := uri }] []) :=
    Xml.Markup.areAttributes_declaredAttributes (some uri)
  have hvalues : Xml.HaveXmlChars (writtenPairs [{ qualifier := none, uri := uri }] []) := by
    intro a ha
    obtain rfl := List.mem_singleton.mp ha
    exact huri
  have htag := lexes_tag_iff hname has hvalues false hrest
  rw [hpairs, List.forall_mem_singleton] at htag
  rw [blockTag_eq]
  exact htag

/-! ## The roots of standalone grammars -/

/-- Values around an element of a legible document are made of characters that a document can
hold. -/
theorem haveXmlChars_of_mem_scope {document : Document} {root : Element} {c : Cursor}
    (hroot : document.root = some root) (hlegible : root.isLegible [] = true)
    (hc : document.Holds c) : ∀ e ∈ c.scope, Xml.HaveXmlChars e.tag.writtenAttributes := by
  have hvalues : ∀ c : Cursor, document.Holds c →
      Xml.HaveXmlChars c.element.tag.writtenAttributes :=
    fun c hc => (hc.legible hroot hlegible).tag.values
  have hall : document.Holds c ∧ ∀ e ∈ c.scope, Xml.HaveXmlChars e.tag.writtenAttributes := by
    refine Document.Holds.induction (P := fun c =>
      document.Holds c ∧ ∀ e ∈ c.scope, Xml.HaveXmlChars e.tag.writtenAttributes) hroot ?_ ?_ hc
    · have hstart : document.Holds { element := root } := Document.holds_root hroot
      refine ⟨hstart, fun e he => ?_⟩
      obtain rfl := List.mem_singleton.mp he
      exact hvalues _ hstart
    · rintro c below ⟨hholds, hscope⟩ hbelow
      obtain ⟨i, -, hi⟩ := Cursor.exists_getElem?_of_mem_children hbelow
      rw [Cursor.getElem?_children] at hi
      obtain ⟨e, -, rfl⟩ := Option.map_eq_some_iff.mp hi
      have hnext := hholds.child hbelow
      refine ⟨hnext, fun e' he' => ?_⟩
      rcases List.mem_cons.mp he' with rfl | he'
      · exact hvalues _ hnext
      · exact hscope e' he'
  exact hall.2

section Root

variable {document : Document} {root : Element} {c : Cursor}

theorem haveXmlChars_declarations (hroot : document.root = some root)
    (hlegible : root.isLegible [] = true) (hc : document.Holds c) :
    Xml.HaveXmlChars (c.declarations.map Xml.Declaration.written) := by
  intro a ha
  obtain ⟨d, hd, rfl⟩ := List.mem_map.mp ha
  have hforce := Cursor.mem_inForce_of_mem_declarations hd
  have hscope : ∃ e ∈ c.scope, d ∈ e.tag.declarations := by
    rcases List.mem_append.mp hforce with hown | houter
    · exact ⟨c.element, List.mem_cons_self, hown⟩
    · obtain ⟨e, he, hde⟩ := List.mem_flatMap.mp houter
      exact ⟨e, List.mem_cons_of_mem _ he, hde⟩
  obtain ⟨e, he, hde⟩ := hscope
  exact haveXmlChars_of_mem_scope hroot hlegible hc e he _
    (List.mem_append_left _ (List.mem_map_of_mem hde))

/-- What is read of a tag with values that attributes carry holds the same attributes. -/
theorem writtenAttributes_readTag_asRead (outer ds : List Xml.Declaration)
    {as : List (String × String)} (hnone : ∀ a ∈ as, Xml.declaration? a = none) (name : String)
    (line : Nat) :
    (Xml.readTag outer name (Xml.asRead (writtenPairs ds as)) line).1.writtenAttributes =
      Xml.asRead (writtenPairs ds as) := by
  have hsplit : Xml.asRead (writtenPairs ds as) =
      (ds.map Xml.Declaration.asRead).map Xml.Declaration.written ++ Xml.asRead as := by
    rw [Xml.asRead, writtenPairs, List.map_append, List.map_map, List.map_map]
    rfl
  have hdeclared : ∀ a ∈ (ds.map Xml.Declaration.asRead).map Xml.Declaration.written,
      (Xml.declaration? a).isSome = true := by
    intro a ha
    obtain ⟨d, -, rfl⟩ := List.mem_map.mp ha
    rw [Xml.declaration?_written]
    rfl
  have hothers : ∀ a ∈ Xml.asRead as, Xml.declaration? a = none := by
    intro a ha
    obtain ⟨a', ha', rfl⟩ := List.mem_map.mp ha
    exact Xml.declaration?_eq_none_congr (hnone a' ha') _
  rw [Xml.writtenAttributes_readTag, hsplit, List.filter_append, List.filter_append,
    List.filter_eq_self.mpr hdeclared,
    List.filter_eq_nil_iff.mpr fun a ha => by simp [hothers a ha],
    List.filter_eq_nil_iff.mpr fun a ha => by
      simpa using Option.isSome_iff_ne_none.mp (hdeclared a ha),
    List.filter_eq_self.mpr fun a ha => by simp [hothers a ha], List.append_nil, List.nil_append]

/-- A root that takes over the declarations at `c` carries what it was given exactly if all the
values are unbroken. -/
theorem writtenAttributes_enclosed_iff (hroot : document.root = some root)
    (hlegible : root.isLegible [] = true) (hc : document.Holds c) {name : String}
    {as : List (String × String)} {ws : List Written} (hvalues : Xml.HaveXmlChars as)
    (hnone : ∀ a ∈ as, Xml.declaration? a = none) {top : Element}
    (htop : top.unlined = (enclosed c name as ws).resolve []) :
    top.tag.writtenAttributes = writtenPairs c.declarations as ↔
      ∀ a ∈ writtenPairs c.declarations as, IsUnbroken a.2 := by
  have hall : Xml.HaveXmlChars (writtenPairs c.declarations as) := by
    intro a ha
    rcases List.mem_append.mp ha with hd | ha
    · exact haveXmlChars_declarations hroot hlegible hc a hd
    · exact hvalues a ha
  have hread : top.tag.writtenAttributes = Xml.asRead (writtenPairs c.declarations as) := by
    have hunlined : top.unlined.tag.writtenAttributes = top.tag.writtenAttributes := by
      cases top
      rfl
    rw [← hunlined, htop]
    exact writtenAttributes_readTag_asRead [] c.declarations hnone name 1
  rw [hread, Xml.asRead_eq_self_iff hall]

end Root

namespace Pattern

variable {document : Document} {root : Element} {c : Cursor} {text : String}

theorem haveXmlChars_inheritedAttributes (hroot : document.root = some root)
    (hlegible : root.isLegible [] = true) (hc : document.Holds c) :
    Xml.HaveXmlChars (inheritedAttributes c) := by
  intro a ha
  obtain ⟨name, -, ha⟩ := List.mem_filterMap.mp ha
  obtain ⟨value, hvalue, rfl⟩ := Option.map_eq_some_iff.mp ha
  obtain ⟨e, he, hattribute⟩ := List.exists_of_findSome?_eq_some hvalue
  obtain ⟨b, hb, rfl⟩ := Option.map_eq_some_iff.mp hattribute
  have hmem : b.written ∈ e.tag.writtenAttributes :=
    List.mem_append_right _ (List.mem_map_of_mem (List.mem_of_find?_eq_some hb))
  exact haveXmlChars_of_mem_scope hroot hlegible hc e he b.written hmem

/-- The root of a standalone grammar carries the declarations in force at the element pattern and
the values that it inherits, exactly if they are unbroken. -/
theorem exists_root_iff (hroot : document.root = some root) (hlegible : root.isLegible [] = true)
    (hserializes : document.Serializes) (hc : document.Holds c)
    (helement : isPart "element" c = true)
    (htext : standalone? (.ofRoot document { element := root }) c = some text) :
    ∃ top, Element.ofText? text = .ok top ∧
      (top.tag.writtenAttributes = writtenPairs c.declarations (inheritedAttributes c) ↔
        ∀ a ∈ writtenPairs c.declarations (inheritedAttributes c), IsUnbroken a.2) := by
  obtain ⟨top, hread, htop⟩ :=
    (writes_standalone hroot hlegible hserializes hc helement htext).ofText?
  refine ⟨top, hread, ?_⟩
  exact writtenAttributes_enclosed_iff hroot hlegible hc
    (haveXmlChars_inheritedAttributes hroot hlegible hc)
    (fun a ha => declaration?_inheritedAttributes ha) htop

end Pattern

namespace Schema

variable {document : Document} {root : Element} {c : Cursor} {name text : String}

/-- A declaration that is moved to the top level carries the values that it keeps exactly if they
are unbroken. -/
theorem writtenAttributes_topWritten_iff (hc : c.Legible) (hlocal : isGlobal c = false)
    {outer : List Xml.Declaration} {copy : Element}
    (hcopy : copy.unlined = (topWritten c).resolve outer) :
    copy.tag.writtenAttributes = keptAttributes c ↔ ∀ a ∈ keptAttributes c, IsUnbroken a.2 := by
  have hkept : ∀ a ∈ keptAttributes c, Xml.declaration? a = none := fun a ha =>
    declaration?_qualifiedAttributes hc (List.mem_filter.mp ha).1
  have hvalues : Xml.HaveXmlChars (keptAttributes c) := fun a ha =>
    hc.tag.values a ((keptAttributes_sublist c).subset ha)
  have hread : copy.tag.writtenAttributes = Xml.asRead (keptAttributes c) := by
    have hunlined : copy.unlined.tag.writtenAttributes = copy.tag.writtenAttributes := by
      cases copy
      rfl
    rw [← hunlined, hcopy, topWritten, hlocal, if_neg Bool.false_ne_true]
    exact writtenAttributes_readTag_asRead outer [] hkept _ 1
  rw [hread, Xml.asRead_eq_self_iff hvalues]

/-- The root of a standalone schema carries the declarations in force at the declaration and the
attributes of the root that it comes from, and a local declaration at its top carries what it keeps,
each exactly if the values are unbroken. -/
theorem exists_root_iff (hroot : document.root = some root) (hlegible : root.isLegible [] = true)
    (hserializes : document.Serializes) (hc : document.Holds c)
    (helement : isComponent "element" c = true)
    (htext : standalone? (.ofRoot document { element := root }) c name = some text) :
    ∃ top copy others, Element.ofText? text = .ok top ∧ top.children = copy :: others ∧
      (top.tag.writtenAttributes = writtenPairs c.declarations root.qualifiedAttributes ↔
        ∀ a ∈ writtenPairs c.declarations root.qualifiedAttributes, IsUnbroken a.2) ∧
      (isGlobal c = false →
        (copy.tag.writtenAttributes = keptAttributes c ↔
          ∀ a ∈ keptAttributes c, IsUnbroken a.2)) := by
  have hrootLegible := (Document.holds_root hroot).legible hroot hlegible
  have hnone : ∀ a ∈ root.qualifiedAttributes, Xml.declaration? a = none :=
    fun a ha => declaration?_qualifiedAttributes hrootLegible ha
  have hvalues : Xml.HaveXmlChars root.qualifiedAttributes := fun a ha =>
    hrootLegible.tag.values a (List.mem_append_right _ ha)
  obtain ⟨others, hwrites⟩ :=
    exists_writes_standalone hroot hlegible hserializes hc helement htext
  obtain ⟨top, hread, htop⟩ := hwrites.ofText?
  have hchildren : top.children.map Element.unlined =
      (topWritten c :: others).map (Written.resolve (carriedScope c)) := by
    rw [← Element.children_unlined, htop, children_resolve_enclosed hnone]
  obtain ⟨copy, rest, hcons, hcopy, -⟩ := List.map_eq_cons_iff.mp hchildren
  refine ⟨top, copy, rest, hread, hcons, ?_, fun hlocal => ?_⟩
  · exact writtenAttributes_enclosed_iff hroot hlegible hc hvalues hnone htop
  · exact writtenAttributes_topWritten_iff (hc.legible hroot hlegible) hlocal hcopy

end Schema

/-- What is written between quotes is read back exactly if it is unbroken: a value on its own or as
the namespace of a block, all the values of a start tag wherever it stands, and those that go into
standalone grammars. -/
theorem values_survive_iff (s : String) (hs : ∀ c ∈ s.toList, Xml.isXmlChar c = true) :
    (Xml.attributeValue? (Xml.normalizeLines (Xml.escape .attribute s).toList) = some s.toList ↔
      IsUnbroken s) ∧
    (∀ (name : String) (rest : List Char) (ts : List Xml.Token), Xml.isName name = true →
      Lexes (Xml.normalizeLines rest) ts →
        (Lexes (Xml.normalizeLines
              (("<" ++ name ++ Xml.Markup.namespaceText (some s)).toList ++ '>' :: rest))
            (.start name [("xmlns", s)] 1 false :: ts) ↔
          IsUnbroken s)) ∧
    (∀ (name : String) (ds : List Xml.Declaration) (as : List (String × String)) (closed : Bool)
        (rest : List Char) (ts : List Xml.Token),
      Xml.isName name = true → Xml.AreAttributes (writtenPairs ds as) →
      Xml.HaveXmlChars (writtenPairs ds as) → Lexes (Xml.normalizeLines rest) ts →
        (Lexes (Xml.normalizeLines ((tagText name ds as).toList ++ (Xml.tagEnd closed ++ rest)))
            (.start name (writtenPairs ds as) 1 closed :: ts) ↔
          ∀ a ∈ writtenPairs ds as, IsUnbroken a.2)) ∧
    (∀ (document : Document) (root : Element) (c : Cursor) (text : String),
      document.root = some root → root.isLegible [] = true → document.Serializes →
      document.Holds c → Pattern.isPart "element" c = true →
      Pattern.standalone? (.ofRoot document { element := root }) c = some text →
        ∃ top, Element.ofText? text = .ok top ∧
          (top.tag.writtenAttributes =
              writtenPairs c.declarations (Pattern.inheritedAttributes c) ↔
            ∀ a ∈ writtenPairs c.declarations (Pattern.inheritedAttributes c),
              IsUnbroken a.2)) ∧
    (∀ (document : Document) (root : Element) (c : Cursor) (name text : String),
      document.root = some root → root.isLegible [] = true → document.Serializes →
      document.Holds c → Schema.isComponent "element" c = true →
      Schema.standalone? (.ofRoot document { element := root }) c name = some text →
        ∃ top copy others, Element.ofText? text = .ok top ∧ top.children = copy :: others ∧
          (top.tag.writtenAttributes = writtenPairs c.declarations root.qualifiedAttributes ↔
            ∀ a ∈ writtenPairs c.declarations root.qualifiedAttributes, IsUnbroken a.2) ∧
          (Schema.isGlobal c = false →
            (copy.tag.writtenAttributes = Schema.keptAttributes c ↔
              ∀ a ∈ Schema.keptAttributes c, IsUnbroken a.2))) := by
  refine ⟨Xml.attributeValue?_eq_some_iff hs, ?_, ?_, ?_, ?_⟩
  · intro name rest ts hname hrest
    exact lexes_blockTag_iff hname hs hrest
  · intro name ds as closed rest ts hname has hvalues hrest
    exact lexes_tag_iff hname has hvalues closed hrest
  · intro document root c text hroot hlegible hserializes hc helement htext
    exact Pattern.exists_root_iff hroot hlegible hserializes hc helement htext
  · intro document root c name text hroot hlegible hserializes hc helement htext
    exact Schema.exists_root_iff hroot hlegible hserializes hc helement htext

/-!
## Tabs

A grammar whose namespace and a schema whose fixed value hold a tab. Of both documents the one
element without a tab is given as a text.
-/

namespace Tabbed

open Schema (component schemaUri)
open Pattern (part patternUri)

/-- The document with this root that gives the text of this element only. -/
def showing (root : Element) (c : Cursor) : Document where
  root := some root
  serialize := fun path => if path = c.path then some c.element.markup else none

theorem serializes_showing {root : Element} {c : Cursor} (hlegible : root.isLegible [] = true)
    (hc : (showing root c).Holds c) (hcarried : c.element.written.isCarried = true) :
    (showing root c).Serializes := by
  intro k text hk htext
  have hpath : k.path = c.path ∧ c.element.markup = text := by
    simpa [showing] using htext
  obtain ⟨hsame, rfl⟩ := hpath
  obtain rfl := hk.eq_of_path_eq hc hsame
  have hwrites := Xml.writes_markup (hk.legible rfl hlegible).element
  rwa [Written.carried_eq hcarried] at hwrites

def note : Element :=
  part "element" [("name", "note")] [part "text" [] []]

def start : Element :=
  part "start" [] [note]

def grammar : Element :=
  .mk
    { name := "grammar"
      uri := some patternUri
      attributes := [{ name := "ns", value := "urn:\tn" }]
      declarations := [{ qualifier := none, uri := patternUri }] }
    "" [start]

def noteCursor : Cursor :=
  below (below { element := grammar } 0 start) 0 note

def first : Element :=
  component "element" [("name", "pair"), ("type", "xs:string"), ("fixed", "a\tb")] []

def members : Element :=
  component "sequence" [] [first]

def pairType : Element :=
  component "complexType" [] [members]

def pair : Element :=
  component "element" [("name", "pair")] [pairType]

def remark : Element :=
  component "element" [("name", "remark"), ("type", "xs:string")] []

def schema : Element :=
  Schema.schemaOf [pair, remark]

def root : Cursor where
  element := schema

def firstCursor : Cursor :=
  below (below (below (below root 0 pair) 0 pairType) 0 members) 0 first

def remarkCursor : Cursor :=
  below root 1 remark

def firstText : String :=
  Schema.standaloneOf ("<xs:element name=\"pair\" type=\"xs:string\" fixed=\"a\tb\"/>" ++
    remark.markup)

def noteText : String :=
  "<grammar xmlns=\"" ++ patternUri ++ "\" ns=\"urn:\tn\"><start>" ++ note.markup ++
    "</start></grammar>"

theorem isXmlChar_tabbed : ∀ c ∈ "a\tb".toList, Xml.isXmlChar c = true :=
  List.all_eq_true.mp rfl

theorem legible_grammar : grammar.isLegible [] = true := by
  rfl

theorem legible_schema : schema.isLegible [] = true := by
  rfl

/-- A tab is lost in each of these places: in a value, in the namespace of a block, in a start tag,
at the root of a standalone grammar and in a declaration that is moved to the top of a schema. The
attributes of that schema are kept. -/
theorem tab_is_lost :
    Xml.attributeValue? (Xml.normalizeLines (Xml.escape .attribute "a\tb").toList) ≠
        some "a\tb".toList ∧
      ¬ Lexes (Xml.normalizeLines
        (("<" ++ "note" ++ Xml.Markup.namespaceText (some "a\tb")).toList ++ ['>']))
          [.start "note" [("xmlns", "a\tb")] 1 false] ∧
      ¬ Lexes (Xml.normalizeLines ((tagText "note" [] [("title", "a\tb")]).toList ++
        (Xml.tagEnd true ++ []))) [.start "note" [("title", "a\tb")] 1 true] ∧
      (∃ top, Element.ofText? noteText = .ok top ∧
        top.tag.writtenAttributes ≠ [("xmlns", patternUri), ("ns", "urn:\tn")]) ∧
      ∃ top copy others, Element.ofText? firstText = .ok top ∧ top.children = copy :: others ∧
        top.tag.writtenAttributes = [("xmlns:xs", schemaUri)] ∧
        copy.tag.writtenAttributes ≠
          [("name", "pair"), ("type", "xs:string"), ("fixed", "a\tb")] := by
  obtain ⟨hvalue, hblock, htag, hpattern, hschema⟩ := values_survive_iff "a\tb" isXmlChar_tabbed
  have hbroken : ¬ IsUnbroken "a\tb" := by decide
  refine ⟨?_, ?_, ?_, ?_, ?_⟩
  · rwa [Ne, hvalue]
  · rwa [hblock "note" [] [] (by decide) Lexes.nil]
  · have hchars : Xml.HaveXmlChars (writtenPairs [] [("title", "a\tb")]) := by decide
    refine fun hlexes => absurd ((htag "note" [] [("title", "a\tb")] true [] [] (by decide)
      ⟨by decide, by decide⟩ hchars Lexes.nil).mp hlexes) ?_
    decide
  · have hholds : (showing grammar noteCursor).Holds noteCursor := rfl
    have hserializes := serializes_showing legible_grammar hholds rfl
    have htext : Pattern.standalone? (.ofRoot (showing grammar noteCursor) { element := grammar })
        noteCursor = some noteText := by
      rfl
    obtain ⟨top, hread, hkept⟩ := hpattern _ grammar noteCursor noteText rfl legible_grammar
      hserializes hholds (by decide) htext
    have hpairs : writtenPairs noteCursor.declarations (Pattern.inheritedAttributes noteCursor) =
        [("xmlns", patternUri), ("ns", "urn:\tn")] := by
      rfl
    rw [hpairs] at hkept
    exact ⟨top, hread, fun hsame => absurd (hkept.mp hsame) (by decide)⟩
  · have hholds : (showing schema remarkCursor).Holds remarkCursor := rfl
    have hserializes := serializes_showing legible_schema hholds rfl
    have htext : Schema.standalone? (.ofRoot (showing schema remarkCursor) root) firstCursor
        "pair" = some firstText := by
      rfl
    obtain ⟨top, copy, others, hread, hchildren, hroot, hkept⟩ := hschema _ schema firstCursor
      "pair" firstText rfl legible_schema hserializes rfl (by decide) htext
    refine ⟨top, copy, others, hread, hchildren, hroot.mpr (by decide), fun hsame => ?_⟩
    exact absurd ((hkept (by decide)).mp hsame) (by decide)

/-- Not every value is the one that is read back. -/
theorem value_changes :
    ¬ (∀ s : String, (∀ c ∈ s.toList, Xml.isXmlChar c = true) →
      Xml.attributeValue? (Xml.normalizeLines (Xml.escape .attribute s).toList) =
        some s.toList) := by
  intro h
  exact absurd (h "a\tb" isXmlChar_tabbed) (by decide)

end Tabbed

end Grammar

end VideoCatalog
