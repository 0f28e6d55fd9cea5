import VideoCatalog.Proofs.Import.Submission
import VideoCatalog.Proofs.Shipped.Text
import VideoCatalog.Proofs.Validator.Verdict

/-!
# What a shipped grammar allows is a record

The shipped grammars and the reader of records are two descriptions of one format. An item that
meets the schema, or the pattern grammar, has one fitting child for each slot of a record
(`Schema.meets_of_valid`, `Pattern.meets_of_conforming`), and such an item is read as the one record
that its children stand for. So a document is never refused because it is no record where the
grammars that accept it are right to do so.
-/

namespace VideoCatalog.Shipped

open Xml (Document Element)

/-- The element meets the grammar that is chosen, or one of them where both are. -/
def MeetsOneOf : GrammarChoice → Element → Prop
  | .schema, e => Grammar.Schema.ValidRoot Schema.source e
  | .pattern, e => Grammar.Pattern.ConformingRoot Pattern.source e
  | .both, e =>
    Grammar.Schema.ValidRoot Schema.source e ∨ Grammar.Pattern.ConformingRoot Pattern.source e

theorem MeetsOneOf.both {choice : GrammarChoice} {e : Element} (h : MeetsOneOf choice e) :
    MeetsOneOf .both e := by
  cases choice with
  | schema => exact .inl h
  | pattern => exact .inr h
  | both => exact h

/-- An item that meets a shipped grammar is read as what its children stand for. The name of an
element is in a namespace or in none, but never in an empty one. -/
theorem ofElement_of_meetsOneOf {choice : GrammarChoice} {e : Element} (huri : e.uri ≠ some "")
    (h : MeetsOneOf choice e) :
    ∃ r, Record.ofElement e = .ok r ∧ Denotes itemSlots e.children r := by
  have hitem : e.name = "item" ∧ e.uri.getD "" = "" ∧ Meets itemSlots e.children := by
    rcases h.both with hvalid | hconforming
    · exact Schema.meets_of_valid hvalid
    · exact Pattern.meets_of_conforming hconforming
  obtain ⟨hname, hspace, hmeets⟩ := hitem
  have hnone : e.uri = none := by
    cases hcase : e.uri with
    | none => rfl
    | some uri =>
        rw [hcase, Option.getD_some] at hspace
        rw [hcase, hspace] at huri
        exact absurd rfl huri
  exact Record.ofElement_of_meets hname hnone hmeets

/-- What meets a shipped grammar is read as the record that it stands for, and what is accepted
rightly is never refused for not being a record. -/
theorem valid_items_are_records :
    (∃ e, Element.ofText? schemaText = .ok e ∧ e.bare = Schema.root.element) ∧
    (∃ e, Element.ofText? patternText = .ok e ∧ e.bare = Pattern.root.element) ∧
    (∀ (choice : GrammarChoice) (e : Element), e.uri ≠ some "" → MeetsOneOf choice e →
      ∃ r, Record.ofElement e = .ok r ∧ Denotes itemSlots e.children r ∧
        ∀ r', Denotes itemSlots e.children r' → r' = r) ∧
    (∀ (G : Type) (b : Backend G) (g : GrammarSet G) (choice : GrammarChoice) (text : String),
      (∀ d, b.document text = .ok d → g.check b choice d = [] →
        ∃ root, d.root = some root ∧ root.uri ≠ some "" ∧ MeetsOneOf choice root) →
      ∀ details, g.accept b choice text ≠ .error (.deserialization details)) := by
  refine ⟨exists_schema, exists_pattern, ?_, ?_⟩
  · intro choice e huri h
    obtain ⟨r, hread, hdenotes⟩ := ofElement_of_meetsOneOf huri h
    refine ⟨r, hread, hdenotes, ?_⟩
    intro r' hdenotes'
    exact Record.denotes_unique e.children r' r hdenotes' hdenotes
  · intro G b g choice text hright details
    cases hdocument : b.document text with
    | error e =>
        rw [GrammarSet.accept_of_malformed hdocument]
        intro h
        cases h
    | ok d =>
        by_cases hnil : g.check b choice d = []
        · obtain ⟨root, hroot, huri, hmeets⟩ := hright d hdocument hnil
          obtain ⟨r, hread, -⟩ := ofElement_of_meetsOneOf huri hmeets
          have hrecord : Record.ofDocument d = .ok r := by
            rw [Record.ofDocument, hroot]
            exact hread
          rw [GrammarSet.accept_of_no_violations hdocument hnil, hrecord]
          intro h
          cases h
        · rw [GrammarSet.accept_of_violations hdocument hnil]
          intro h
          cases h

/-!
## An item written in unusual ways

The numbers have signs, leading zeros and white space around them, and the truth value is a digit.
The schema allows the item with its children in order, and the pattern grammar with the same
children in reverse.
-/

namespace Unusual

def variant : Element :=
  plain "media" "\n"
    [plain "url" "" [], plain "data_size" " 0009" [], plain "quality" "high" [],
      plain "extension" "mp4" [], plain "type" "video" [], plain "duration" "+5\n" []]

def fields : List Element :=
  [plain "url" "" [], plain "source" "web" [], plain "id" " +007 " [], plain "unique_id" "u7" [],
    plain "author" "" [], plain "title" " Paris " [], plain "thumbnail" "" [],
    plain "duration" "-0" [], plain "medias" "\n" [variant], plain "type" "" [],
    plain "error" " 1 " [], plain "time_end" "-2147483648" []]

def ordered : Element :=
  plain "item" "" fields

def reversed : Element :=
  plain "item" "" fields.reverse

def stored : Record :=
  { source := "web", id := 7, uniqueId := "u7", title := " Paris ", duration := 0,
    medias := [{ dataSize := 9, quality := "high", extension := "mp4", kind := "video",
                 duration := some 5 }],
    error := true, timeEnd := -2147483648 }

/-! The texts -/

theorem long_dataSize : Text.OfDatatype "long" " 0009" := by
  have hstrips : Text.Strips " 0009" ['0', '0', '0', '9'] :=
    @Text.Strips.of_all _ [' '] _ [] rfl rfl rfl
  have hnumeral : Text.Numeral ['0', '0', '0', '9'] 9 :=
    .plain (List.cons_ne_nil _ _) (List.all_eq_true.mp rfl)
  exact ⟨9, ⟨_, hstrips, hnumeral⟩, by decide, by decide⟩

theorem long_id : Text.OfDatatype "long" " +007 " := by
  have hstrips : Text.Strips " +007 " ['+', '0', '0', '7'] :=
    @Text.Strips.of_all _ [' '] _ [' '] rfl rfl rfl
  have hnumeral : Text.Numeral ['+', '0', '0', '7'] 7 :=
    .plus (List.cons_ne_nil _ _) (List.all_eq_true.mp rfl)
  exact ⟨7, ⟨_, hstrips, hnumeral⟩, by decide, by decide⟩

theorem int_five : Text.OfDatatype "int" "+5\n" := by
  have hstrips : Text.Strips "+5\n" ['+', '5'] :=
    @Text.Strips.of_all _ [] _ ['\n'] rfl rfl rfl
  have hnumeral : Text.Numeral ['+', '5'] 5 :=
    .plus (List.cons_ne_nil _ _) (List.all_eq_true.mp rfl)
  exact ⟨5, ⟨_, hstrips, hnumeral⟩, by decide, by decide⟩

theorem int_zero : Text.OfDatatype "int" "-0" := by
  have hstrips : Text.Strips "-0" ['-', '0'] :=
    @Text.Strips.of_all _ [] _ [] rfl rfl rfl
  have hnumeral : Text.Numeral ['-', '0'] 0 :=
    .minus (List.cons_ne_nil _ _) (List.all_eq_true.mp rfl)
  exact ⟨0, ⟨_, hstrips, hnumeral⟩, by decide, by decide⟩

theorem int_least : Text.OfDatatype "int" "-2147483648" := by
  have hstrips : Text.Strips "-2147483648" "-2147483648".toList :=
    @Text.Strips.of_all _ [] _ [] rfl rfl rfl
  have hnumeral : Text.Numeral "-2147483648".toList (-2147483648) :=
    .minus (List.cons_ne_nil _ _) (List.all_eq_true.mp rfl)
  exact ⟨-2147483648, ⟨_, hstrips, hnumeral⟩, by decide, by decide⟩

theorem boolean_one : Text.OfDatatype "boolean" " 1 " :=
  ⟨true, ['1'], by decide, @Text.Strips.of_all _ [' '] _ [' '] rfl rfl rfl⟩

/-! The schema -/

section Schema

open Grammar (below)
open Grammar.Schema (Occurs ValidRoot ValidTo occurs_once)
open Schema

variable {i : Nat} {c : Xml.Cursor} {name type text : String}

theorem goes_leaf (hscope : c.declarations = declarations) (htrim : Text.trim name = name)
    (htype : builtIn.contains type = true) (htext : Text.OfDatatype type text) (depth : Nat) :
    Goes depth (below c i (field name ("xs:" ++ type) [])) [plain name text []] := by
  have hvalid : ∀ e ∈ [plain name text []],
      ValidTo source depth (below c i (field name ("xs:" ++ type) [])) e := by
    intro e he
    obtain rfl := List.mem_singleton.mp he
    exact validTo_leaf hscope htype (named_field rfl rfl htrim rfl rfl) rfl htext
  exact ⟨hvalid, occurs_once rfl rfl⟩

theorem goes_text (hscope : c.declarations = declarations) (htrim : Text.trim name = name)
    (depth : Nat) : Goes depth (below c i (field name "xs:string" [])) [plain name text []] := by
  have htext : Text.OfDatatype "string" text := trivial
  exact goes_leaf hscope htrim rfl htext depth

/-- One occurrence, where none is enough and one is not too many. -/
theorem occurs_atWill (hmin : c.element.attribute? "minOccurs" = some "0")
    (hmax : ∀ text, c.element.attribute? "maxOccurs" = some text → text = "unbounded") :
    Occurs c 1 where
  least text h := by
    obtain rfl := Option.some.inj (hmin.symm.trans h)
    exact ⟨0, ⟨['0'], .inl (by decide), by decide⟩, Nat.zero_le 1⟩
  leastDefault _ := Nat.le_refl 1
  greatest text h := by
    rw [hmax text h]
    exact .inl (by decide)
  greatestDefault _ := Nat.le_refl 1

theorem validTo_variant (hscope : c.declarations = declarations) (depth : Nat) :
    ValidTo source depth
      (below c i (field "media" "MediaType" [("minOccurs", "0"), ("maxOccurs", "unbounded")]))
      variant := by
  have hpieces : ∀ depth, List.Forall₂ (Goes depth) (fieldsAt 3 "MediaType" mediaFields)
      (variant.children.map (fun e => [e])) := by
    intro depth
    refine .cons ?url (.cons ?dataSize (.cons ?quality (.cons ?extension (.cons ?kind
      (.cons ?duration .nil)))))
    case dataSize => exact goes_leaf rfl rfl rfl long_dataSize depth
    case duration =>
      refine ⟨?_, occurs_atWill rfl ?_⟩
      · intro e he
        obtain rfl := List.mem_singleton.mp he
        have htext : Text.OfDatatype "int" (plain "duration" "+5\n" []).text := int_five
        exact validTo_leaf rfl rfl (named_field rfl rfl rfl rfl rfl) rfl htext
      · intro text h
        cases h
    all_goals exact goes_text rfl rfl depth
  exact validTo_block hscope isComplex_media (named_field rfl rfl rfl rfl rfl) hpieces rfl

theorem validTo_medias (hscope : c.declarations = declarations) (depth : Nat) :
    ValidTo source depth (below c i (field "medias" "MediaListType" []))
      (plain "medias" "\n" [variant]) := by
  have hpieces : ∀ depth, List.Forall₂ (Goes depth) (fieldsAt 2 "MediaListType" listFields)
      [[variant]] := by
    intro depth
    refine .cons ⟨?_, occurs_atWill rfl ?_⟩ .nil
    · intro e he
      obtain rfl := List.mem_singleton.mp he
      exact validTo_variant rfl depth
    · intro text h
      exact (Option.some.inj h).symm
  exact validTo_block hscope isComplex_list (named_field rfl rfl rfl rfl rfl) hpieces rfl

theorem validRoot_ordered : ValidRoot source ordered := by
  have hpieces : ∀ depth, List.Forall₂ (Goes depth) (fieldsAt 1 "ItemType" itemFields)
      (fields.map (fun e => [e])) := by
    intro depth
    refine .cons ?url (.cons ?source (.cons ?id (.cons ?uniqueId (.cons ?author (.cons ?title
      (.cons ?thumbnail (.cons ?duration (.cons ?medias (.cons ?kind (.cons ?error
      (.cons ?timeEnd .nil)))))))))))
    case id => exact goes_leaf rfl rfl rfl long_id depth
    case duration => exact goes_leaf rfl rfl rfl int_zero depth
    case medias =>
      refine ⟨?_, occurs_once rfl rfl⟩
      intro e he
      obtain rfl := List.mem_singleton.mp he
      exact validTo_medias rfl depth
    case error => exact goes_leaf rfl rfl rfl boolean_one depth
    case timeEnd => exact goes_leaf rfl rfl rfl int_least depth
    all_goals exact goes_text rfl rfl depth
  refine ⟨below root 0 (field "item" "ItemType" []), List.mem_cons_self, rfl, ?_⟩
  intro depth
  exact validTo_block rfl isComplex_item (named_field rfl rfl rfl rfl rfl) hpieces rfl

end Schema

/-! The pattern grammar -/

section Pattern

open Grammar (below)
open Grammar.Pattern (ConformingRoot Conforms InGroup InInterleave part parts)
open Pattern

theorem conforms_variant : Conforms source media variant := by
  have hpieces : List.Forall₂ Goes (parts media) (variant.children.map (fun e => [e])) := by
    refine .cons (.element rfl ?url) (.cons (.element rfl ?dataSize) (.cons (.element rfl ?quality)
      (.cons (.element rfl ?extension) (.cons (.element rfl ?kind) (.cons ?duration .nil)))))
    case dataSize => exact conforms_data rfl rfl rfl rfl rfl rfl long_dataSize
    case extension =>
      refine conforms_field rfl rfl rfl rfl (.data rfl) rfl ?_
      intro p hp _ _ type htype
      obtain rfl := List.mem_singleton.mp hp
      obtain rfl := Option.some.inj htype
      exact trivial
    case duration =>
      refine .present rfl (.of_pieces (.cons (.element rfl ?_) .nil))
      exact conforms_data rfl rfl rfl rfl rfl rfl int_five
    all_goals exact conforms_text rfl rfl rfl rfl rfl
  have hnames : ∀ p ∈ parts media, p.name ≠ "data" := by decide
  refine .mk (.written rfl (.of_plain rfl (by decide) rfl)) (.written rfl) (.of_pieces hpieces) ?_
  intro p hp hdata
  exact absurd hdata (hnames p hp)

theorem conforms_medias {c : Xml.Cursor} {i : Nat} (hspace : c.inherited? "ns" = none) :
    Conforms source (below c i (field "medias" (part "zeroOrMore" [] [reference "media"])))
      (plain "medias" "\n" [variant]) := by
  refine conforms_field hspace rfl rfl rfl ?_ rfl ?_
  · have hvariants : ∀ es ∈ [[variant]], InGroup source (Conforms source)
        (parts (below (below c i (field "medias" (part "zeroOrMore" [] [reference "media"]))) 0
          (part "zeroOrMore" [] [reference "media"]))) es := by
      intro es hes
      obtain rfl := List.mem_singleton.mp hes
      exact .of_pieces (.cons (reference_of_conforms rfl conforms_variant) .nil)
    exact .zeroOrMore rfl hvariants
  · intro p hp hdata
    obtain rfl := List.mem_singleton.mp hp
    have hnames : "zeroOrMore" = "data" := hdata
    exact absurd hnames (by decide)

theorem conformingRoot_reversed : ConformingRoot source reversed := by
  have hfields : List.Forall₂ (fun p e => Goes p [e])
      (parts (below item 0 (part "interleave" [] itemFields))) fields := by
    refine .cons (.element rfl ?url) (.cons (.element rfl ?source) (.cons (.element rfl ?id)
      (.cons (.element rfl ?uniqueId) (.cons (.element rfl ?author) (.cons (.element rfl ?title)
      (.cons (.element rfl ?thumbnail) (.cons (.element rfl ?duration) (.cons (.element rfl ?medias)
      (.cons (.element rfl ?kind) (.cons (.element rfl ?error)
      (.cons (.element rfl ?timeEnd) .nil)))))))))))
    case id => exact conforms_data rfl rfl rfl rfl rfl rfl long_id
    case duration => exact conforms_data rfl rfl rfl rfl rfl rfl int_zero
    case medias => exact conforms_medias rfl
    case error => exact conforms_data rfl rfl rfl rfl rfl rfl boolean_one
    case timeEnd => exact conforms_data rfl rfl rfl rfl rfl rfl int_least
    all_goals exact conforms_text rfl rfl rfl rfl rfl
  have hcontent : InGroup source (Conforms source) (parts item) [fields.reverse].flatten := by
    refine .of_pieces (.cons (.interleave rfl ?_) .nil)
    exact .of_perm hfields (List.reverse_perm fields)
  have hitem : Conforms source item reversed := by
    refine .mk (.written rfl (.of_plain rfl (by decide) rfl)) (.written rfl) hcontent ?_
    intro p hp hdata
    obtain rfl := List.mem_singleton.mp hp
    have hnames : "interleave" = "data" := hdata
    exact absurd hnames (by decide)
  refine ⟨below root 0 start, List.mem_cons_self, rfl, ?_⟩
  exact .of_pieces (.cons (reference_of_conforms rfl hitem) .nil)

end Pattern

/-- Engines that accept everything and know one document. -/
def backend : Backend Nat :=
  { Backend.judging (fun _ _ => .answered 0 []) with
    parse := fun text =>
      if text = "reversed" then .document { root := some reversed } else .malformed none }

def grammars : GrammarSet Nat where
  schema := { engine := .schema, grammar := 0, model := none }
  pattern := { engine := .pattern, grammar := 1, model := none }

/-- Both items are read as the same record, and the one in reverse is not refused as none. -/
theorem valid_items_are_records_unusual :
    MeetsOneOf .schema ordered ∧ MeetsOneOf .pattern reversed ∧
      (∃ r, Record.ofElement ordered = .ok r ∧ Denotes itemSlots ordered.children r ∧ r = stored) ∧
      (∃ r, Record.ofElement reversed = .ok r ∧ Denotes itemSlots reversed.children r ∧
        r = stored) ∧
      ∀ details,
        grammars.accept backend .pattern "reversed" ≠ .error (.deserialization details) := by
  obtain ⟨-, -, hread, hright⟩ := valid_items_are_records
  have hordered : MeetsOneOf .schema ordered := validRoot_ordered
  have hreversed : MeetsOneOf .pattern reversed := conformingRoot_reversed
  have huri : ∀ e : Element, e.uri = none → e.uri ≠ some "" := by
    intro e hnone hempty
    rw [hnone] at hempty
    cases hempty
  obtain ⟨r, hr, hdenotes, -⟩ := hread .schema ordered (huri ordered rfl) hordered
  obtain ⟨r', hr', hdenotes', -⟩ := hread .pattern reversed (huri reversed rfl) hreversed
  have hstored : Record.ofElement ordered = .ok stored := rfl
  have hstored' : Record.ofElement reversed = .ok stored := rfl
  refine ⟨hordered, hreversed, ⟨r, hr, hdenotes, ?_⟩, ⟨r', hr', hdenotes', ?_⟩, ?_⟩
  · exact Except.ok.inj (hr.symm.trans hstored)
  · exact Except.ok.inj (hr'.symm.trans hstored')
  · refine hright Nat backend grammars .pattern "reversed" ?_
    intro d hd _
    obtain rfl : { root := some reversed } = d := Except.ok.inj hd
    exact ⟨reversed, rfl, huri reversed rfl, hreversed⟩

end Unusual

end VideoCatalog.Shipped
