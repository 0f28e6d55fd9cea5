import Mathlib.Data.List.Forall2
import VideoCatalog.Proofs.Pattern.Matching
import VideoCatalog.Proofs.Text.Lexical

/-!
# When an element matches a RelaxNG pattern, texts included

`Conforms` is `Valid` with a word on texts: where the content of an element pattern is a data
pattern with a datatype of XML Schema, the text is of that datatype. Parameters of data patterns
narrow a datatype further; nothing here needs that.

An interleaving of patterns takes its elements apart into pieces, one for each pattern
(`InInterleave.pieces`), and so does a group (`InGroup.pieces`).
-/

namespace VideoCatalog.Grammar.Pattern

open Xml (Cursor Element)

/-- The library of the datatypes of XML Schema. -/
def datatypesUri : String :=
  "http://www.w3.org/2001/XMLSchema-datatypes"

/-- The text is of the datatype that a data pattern names, if it is one of XML Schema. -/
def TextFits (content : List Cursor) (text : String) : Prop :=
  ∀ p ∈ content, p.name = "data" → p.inherited? "datatypeLibrary" = some datatypesUri →
    ∀ type, p.element.attribute? "type" = some type → Text.OfDatatype (Text.trim type) text

/-- An element matches an element pattern, and so does everything below it, with its texts. -/
inductive Conforms (source : Source) : Cursor → Element → Prop
  | mk {c : Cursor} {e : Element} {content : List Cursor} : Named c e → HasContent c content →
      InGroup source (Conforms source) content e.children → TextFits content e.text →
      Conforms source c e

/-- The element matches what the grammar starts with, as the root of a document has to. -/
def ConformingRoot (source : Source) (e : Element) : Prop :=
  ∃ start ∈ parts source.root, start.name = "start" ∧
    InGroup source (Conforms source) (parts start) [e]

section

variable {source : Source} {fits : Cursor → Element → Prop} {c p : Cursor} {written text : String}
  {e : Element} {es fs : List Element} {ps content : List Cursor}

/-- An element pattern with its name in an attribute. -/
theorem Conforms.of_written (h : Conforms source c e)
    (hwritten : c.element.attribute? "name" = some written)
    (hplain : ':' ∉ (Text.trim written).toList) :
    e.name = Text.trim written ∧ e.uri.getD "" = namespaceAt c ∧
      InGroup source (Conforms source) (parts c) e.children ∧ TextFits (parts c) e.text := by
  cases h with
  | mk hnamed hcontent hgroup htext =>
      have hbears : Bears c written e := by
        cases hnamed with
        | written hwritten' hbears =>
            obtain rfl := Option.some.inj (hwritten.symm.trans hwritten')
            exact hbears
        | nameClass hnone _ _ => cases hwritten.symm.trans hnone
      obtain ⟨huri, hname⟩ := Xml.Expands.eq_of_not_mem hbears hplain
      cases hcontent with
      | written _ => exact ⟨hname, huri, hgroup, htext⟩
      | nameClass hnone _ _ => cases hwritten.symm.trans hnone

/-- Patterns in a row match one piece each, in order. -/
theorem InGroup.pieces (h : InGroup source fits ps es) :
    ∃ pieces, List.Forall₂ (Matches source fits) ps pieces ∧ es = pieces.flatten := by
  induction ps generalizing es with
  | nil =>
      cases h
      exact ⟨[], .nil, rfl⟩
  | cons p ps ih =>
      cases h with
      | @cons _ _ piece rest hfirst hrest =>
          obtain ⟨pieces, hpieces, rfl⟩ := ih hrest
          exact ⟨piece :: pieces, .cons hfirst hpieces, rfl⟩

theorem InGroup.of_pieces {pieces : List (List Element)}
    (h : List.Forall₂ (Matches source fits) ps pieces) : InGroup source fits ps pieces.flatten := by
  induction h with
  | nil => exact .nil
  | cons hfirst _ ih => exact .cons hfirst ih

/-- Patterns in an interleaving match one piece each, and the pieces can be mixed. -/
theorem InInterleave.pieces (h : InInterleave source fits (ps.map (fun p => [p])) es) :
    ∃ pieces, List.Forall₂ (Matches source fits) ps pieces ∧ es.Perm pieces.flatten := by
  induction ps generalizing es with
  | nil =>
      cases h
      exact ⟨[], .nil, .refl _⟩
  | cons p ps ih =>
      cases h with
      | @cons _ _ piece rest mixed hfirst hrest hmixed =>
          obtain ⟨pieces, hpieces, hperm⟩ := ih hrest
          exact ⟨piece :: pieces, .cons hfirst.of_single hpieces,
            hmixed.perm.trans (hperm.append_left piece)⟩

/-- An element may come into a list anywhere. -/
theorem Shuffle.insert {α : Type} (a : α) (as bs : List α) :
    Shuffle [a] (as ++ bs) (as ++ a :: bs) := by
  induction as with
  | nil =>
      have hrest : Shuffle [] bs bs := by
        induction bs with
        | nil => exact .nil
        | cons b bs ih => exact .right ih
      exact .left hrest
  | cons b as ih => exact .right ih

/-- Pieces of one element each can stand in any order in an interleaving. -/
theorem InInterleave.of_perm (h : List.Forall₂ (fun p e => Matches source fits p [e]) ps fs)
    (hperm : es.Perm fs) : InInterleave source fits (ps.map (fun p => [p])) es := by
  induction h generalizing es with
  | nil =>
      obtain rfl := hperm.eq_nil
      exact .nil
  | @cons p f ps fs hfirst _ ih =>
      obtain ⟨before, after, rfl⟩ := List.append_of_mem (hperm.mem_iff.mpr List.mem_cons_self)
      have hrest : (before ++ after).Perm fs :=
        List.Perm.cons_inv (List.perm_middle.symm.trans hperm)
      have hgroup : InGroup source fits [p] [f] := .of_pieces (.cons hfirst .nil)
      exact .cons hgroup (ih hrest) (Shuffle.insert f before after)

end

end VideoCatalog.Grammar.Pattern
