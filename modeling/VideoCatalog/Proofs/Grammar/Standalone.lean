import VideoCatalog.Grammar.Reading
import VideoCatalog.Proofs.Xml.Fragment

/-!
# Texts of standalone grammars

A standalone grammar is a new root around parts of the grammar document. The root takes over the
declarations that are in force at one place `c` of the document, so its parts are read in what
attributes carry of these declarations (`carriedScope`), whatever place they come from. Here is what
such a root says (`enclosed`) and that its text is read as that (`writes_enclosed`).
-/

namespace VideoCatalog.Grammar

open Xml (Cursor Document Written Writes)

/-! ## Tags -/

theorem declarationText_eq (d : Xml.Declaration) :
    declarationText d = Xml.attributeText d.written.1 d.written.2 :=
  rfl

theorem toList_tagText (name : String) (ds : List Xml.Declaration) (as : List (String × String)) :
    (tagText name ds as).toList =
      '<' :: (name.toList ++ Xml.attributeChars (ds.map Xml.Declaration.written ++ as)) := by
  have hds : ds.map declarationText =
      (ds.map Xml.Declaration.written).map (fun a => Xml.attributeText a.1 a.2) := by
    rw [List.map_map]
    exact List.map_congr_left fun d _ => declarationText_eq d
  rw [tagText, String.toList_append, String.toList_append, hds, Xml.toList_join_attributeText,
    Xml.toList_join_attributeText, Xml.attributeChars, Xml.attributeChars, Xml.attributeChars,
    List.flatMap_append]
  simp

section Tags

variable {name : String} {ds : List Xml.Declaration} {as : List (String × String)}

/-- A start tag, some elements and an end tag write an element. -/
theorem writes_element (hname : Xml.isName name = true)
    (has : Xml.AreAttributes (ds.map Xml.Declaration.written ++ as)) {texts : List String}
    {ws : List Written} (hall : List.Forall₂ Writes texts ws) :
    Writes (openTag name ds as ++ String.join texts ++ closeTag name)
      (.mk name (Xml.asRead (ds.map Xml.Declaration.written ++ as)) "" ws) := by
  refine Writes.block hname has "" hall ?_
  have hempty : (Xml.escape .content "").toList = [] := rfl
  simp [openTag, closeTag, toList_tagText, Xml.blockChars, Xml.tagEnd, hempty, String.toList_join]

/-- A tag that closes at once writes an element. -/
theorem writes_emptyTag (hname : Xml.isName name = true)
    (has : Xml.AreAttributes (ds.map Xml.Declaration.written ++ as)) :
    Writes (emptyTag name ds as)
      (.mk name (Xml.asRead (ds.map Xml.Declaration.written ++ as)) "" []) := by
  refine Writes.closed hname has ?_
  simp [emptyTag, toList_tagText, Xml.closedChars, Xml.tagEnd]

end Tags

/-- The texts that a document gives for several elements stand for them. -/
theorem writes_of_mapM {document : Document} (h : document.Serializes) {cs : List Cursor}
    (hcs : ∀ c ∈ cs, document.Holds c) {texts : List String}
    (htexts : cs.mapM (fun c => document.serialize c.path) = some texts) :
    List.Forall₂ Writes texts (cs.map (fun c => c.element.written)) := by
  induction cs generalizing texts with
  | nil =>
      rw [List.mapM_nil] at htexts
      cases htexts
      exact .nil
  | cons c cs ih =>
      rw [List.mapM_cons] at htexts
      obtain ⟨text, htext, hrest⟩ := Option.bind_eq_some_iff.mp htexts
      obtain ⟨more, hmore, hall⟩ := Option.bind_eq_some_iff.mp hrest
      cases hall
      exact .cons (h c text (hcs c List.mem_cons_self) htext)
        (ih (fun d hd => hcs d (List.mem_cons_of_mem _ hd)) hmore)

/-! ## The new root -/

/-- What attributes carry of the declarations in force at a place. -/
def carriedScope (c : Cursor) : List Xml.Declaration :=
  c.declarations.map Xml.Declaration.asRead

theorem lookup?_carriedScope (c : Cursor) (q : Option String) :
    Xml.lookup? (carriedScope c) q = (c.binding? q).map Xml.inAttribute := by
  rw [carriedScope, Xml.lookup?_asRead, Cursor.lookup?_declarations]

/-- A qualifier means the same on a copy of `k` that is put into the scope of `c` as it does at `k`
exactly if it is declared on `k` itself, or `c` has for it what `k` has. -/
theorem lookup?_copy_eq_iff (c k : Cursor) (q : Option String) :
    Xml.lookup? (k.element.tag.declarations ++ carriedScope c) q = k.binding? q ↔
      ((∀ d ∈ k.element.tag.declarations, d.qualifier ≠ q) →
        (c.binding? q).map Xml.inAttribute = k.binding? q) := by
  by_cases hown : ∃ d ∈ k.element.tag.declarations, d.qualifier = q
  · have hsame : Xml.lookup? (k.element.tag.declarations ++ carriedScope c) q = k.binding? q := by
      rw [Xml.lookup?_append_of_mem hown, Cursor.binding?, Cursor.inForce,
        Xml.lookup?_append_of_mem hown]
    obtain ⟨d, hd, hq⟩ := hown
    exact ⟨fun _ hnone => absurd hq (hnone d hd), fun _ => hsame⟩
  · have hnone : ∀ d ∈ k.element.tag.declarations, d.qualifier ≠ q :=
      fun d hd hq => hown ⟨d, hd, hq⟩
    rw [Xml.lookup?_append_of_not_mem hnone, lookup?_carriedScope]
    exact ⟨fun h _ => h, fun h => h hnone⟩

/-- An element that puts others into the scope of a place. -/
def enclosed (c : Cursor) (name : String) (as : List (String × String)) (ws : List Written) :
    Written :=
  .mk name (Xml.asRead (c.declarations.map Xml.Declaration.written ++ as)) "" ws

section Enclosed

variable {c : Cursor} {name : String} {as : List (String × String)} {ws : List Written}

theorem writes_enclosed (hc : c.Legible) (hname : Xml.isName name = true)
    (has : Xml.AreAttributes as) (hnone : ∀ a ∈ as, Xml.declaration? a = none)
    {texts : List String} (hall : List.Forall₂ Writes texts ws) :
    Writes (openTag name c.declarations as ++ String.join texts ++ closeTag name)
      (enclosed c name as ws) := by
  have hnames : ∀ d ∈ c.declarations, Xml.isName d.written.1 = true := fun d hd =>
    hc.names d (Cursor.mem_inForce_of_mem_declarations hd)
  exact writes_element hname (Xml.areAttributes_append hnames c.nodup_declarations has hnone) hall

theorem declarations_enclosed (hnone : ∀ a ∈ as, Xml.declaration? a = none) :
    (enclosed c name as ws).declarations = carriedScope c :=
  Xml.filterMap_asRead c.declarations hnone

theorem children_resolve_enclosed (hnone : ∀ a ∈ as, Xml.declaration? a = none) :
    ((enclosed c name as ws).resolve []).children = ws.map (Written.resolve (carriedScope c)) := by
  rw [Written.children_resolve, declarations_enclosed hnone, List.append_nil]
  rfl

theorem attribute?_resolve_enclosed {n : String} (hplain : Xml.isPlainName n = true)
    (hn : n ≠ "xmlns") :
    ((enclosed c name as ws).resolve []).attribute? n = (as.lookup n).map Xml.inAttribute := by
  have hattributes : (enclosed c name as ws).attributes =
      Xml.asRead (c.declarations.map Xml.Declaration.written ++ as) := rfl
  rw [Written.attribute?_resolve [] _ hplain hn, hattributes, Xml.lookup_asRead, List.lookup_append,
    Xml.lookup_declarations hplain hn, Option.none_or]

theorem isIn_resolve_enclosed_iff (hnone : ∀ a ∈ as, Xml.declaration? a = none)
    {q : Option String} {n : String} (hsplit : Xml.splitName name = (q, n)) (uri : String) :
    ((enclosed c name as ws).resolve []).isIn uri n = true ↔
      (c.binding? q).map Xml.inAttribute = some uri := by
  have hname : Xml.splitName (enclosed c name as ws).name = (q, n) := hsplit
  rw [Written.isIn_resolve_iff hname, declarations_enclosed hnone, List.append_nil,
    lookup?_carriedScope]

end Enclosed

end VideoCatalog.Grammar
