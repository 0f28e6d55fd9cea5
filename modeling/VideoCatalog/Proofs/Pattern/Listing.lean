import VideoCatalog.Proofs.Pattern.Soundness

/-!
# A listing by a RelaxNG model spares what the grammar allows

The listing of a document is made of the accounts of its reached elements, and each element-only one
of them is checked against an element pattern of the grammar, the one that its declaration was
entered for (`EnteredFor`). If the children of the element match the content of that pattern, and
the reader understood all in it, then the listing says nothing of the element
(`listing_spares_matched`).

Without the second condition it is not so. The last part shows a grammar with a name class and a
name that is defined twice, and a document that is valid by it and has four violations in its
listing.
-/

namespace VideoCatalog.Grammar.Pattern

open Xml (Cursor Document Element)

section

variable {G : Type} {document : Document} {root c : Cursor} {index depth : Nat}
  {compile : Compiler G} {m : Model G} {requests : List String}

/-! ## Reading through to the end -/

/-- How the roots are read, if the document is a grammar. -/
def roots? (source : Source) (compile : Compiler G) (depth : Nat) : Option (Read G (List Nat)) :=
  if isPart "grammar" source.root then
    ((parts source.root).find? (fun c => c.name == "start")).map (fun start => do
      let found ← Read.forEach (startDeclarations source compile depth) (parts start)
      pure found.flatten)
  else if isPart "element" source.root then
    some (do
      let (index, _) ← declaration source compile depth source.root
      pure [index])
  else none

theorem readUpTo_eq (hroot : document.cursor? = some root) (compile : Compiler G) (depth : Nat) :
    readUpTo compile document depth =
      match roots? (.ofRoot document root) compile depth with
      | some roots => finish roots
      | none => .finished none [] := by
  rw [readUpTo, hroot]
  unfold roots?
  by_cases hgrammar : isPart "grammar" root = true
  · simp only [Source.ofRoot, hgrammar, ↓reduceIte]
    cases (parts root).find? (fun c => c.name == "start") <;> rfl
  · by_cases helement : isPart "element" root = true
    · simp only [Source.ofRoot, hgrammar, helement, ↓reduceIte, Bool.false_eq_true]
    · simp only [Source.ofRoot, hgrammar, helement, ↓reduceIte, Bool.false_eq_true]

/-- The declaration at this position of the model of a grammar document was entered for this element
pattern. -/
def EnteredFor (compile : Compiler G) (document : Document) (c : Cursor) (index : Nat) : Prop :=
  ∃ root roots, document.cursor? = some root ∧
    roots? (.ofRoot document root) compile (depthBound root.element) = some roots ∧
    ReadFrom roots document c index

theorem EnteredFor.readFrom {roots : Read G (List Nat)} (hroot : document.cursor? = some root)
    (hroots : roots? (.ofRoot document root) compile (depthBound root.element) = some roots)
    (h : EnteredFor compile document c index) : ReadFrom roots document c index := by
  obtain ⟨root', roots', hroot', hroots', hc⟩ := h
  obtain rfl := Option.some.inj (hroot.symm.trans hroot')
  obtain rfl := Option.some.inj (hroots.symm.trans hroots')
  exact hc

/-- Reading what the start offers keeps the declarations faithful. -/
theorem keeps_startDeclarations (hroot : document.Holds root) (compile : Compiler G) :
    ∀ (depth : Nat) (c : Cursor), document.Holds c →
      Read.Keeps (Faithful document root)
        (startDeclarations (.ofRoot document root) compile depth c) (fun _ => True)
  | 0, _, _ => .tooDeep
  | depth + 1, c, hc => by
      have hindex : ∀ t, document.Holds t →
          Read.Keeps (Faithful document root) (do
            let (index, _) ← declaration (.ofRoot document root) compile depth t
            pure [index]) (fun _ => True) :=
        fun t ht => .bind (keeps_declaration hroot compile depth t ht) fun _ _ => .pure trivial
      unfold startDeclarations
      split
      · exact hindex c hc
      · split
        · next href =>
          cases hwritten : c.element.attribute? "name" with
          | none => exact .pure trivial
          | some name =>
              rw [Option.bind_some]
              cases hdefined : definedElement? (.ofRoot document root) name with
              | none => exact .pure trivial
              | some t => exact hindex t ((Target.ref href hwritten hdefined).holds hroot hc)
        · split
          · refine .bind (Read.Keeps.forEach fun p hp => ?_) fun _ _ => .pure trivial
            exact keeps_startDeclarations hroot compile depth p (holds_of_mem_parts hc hp)
          · exact .pure trivial

theorem keeps_roots (hroot : document.Holds root) {roots : Read G (List Nat)}
    (h : roots? (.ofRoot document root) compile depth = some roots) :
    Read.Keeps (Faithful document root) roots (fun _ => True) := by
  unfold roots? at h
  split at h
  · obtain ⟨start, hstart, rfl⟩ := Option.map_eq_some_iff.mp h
    have hholds : document.Holds start :=
      holds_of_mem_parts hroot (List.mem_of_find?_eq_some hstart)
    refine .bind (Read.Keeps.forEach fun p hp => ?_) fun _ _ => .pure trivial
    exact keeps_startDeclarations hroot compile depth p (holds_of_mem_parts hholds hp)
  · split at h
    · obtain rfl := Option.some.inj h
      exact .bind (keeps_declaration hroot compile depth root hroot) fun _ _ => .pure trivial
    · cases h

/-- A model that was read is what had been collected in the end. -/
theorem exists_run_of_read (hroot : document.cursor? = some root)
    (h : read compile document = .finished (some m) requests) :
    ∃ roots s, roots? (.ofRoot document root) compile (depthBound root.element) = some roots ∧
      roots.run {} = some (m.roots, s) ∧ m.declarations = s.declarations := by
  obtain ⟨element, helement, rfl⟩ := Option.map_eq_some_iff.mp hroot
  rw [read, helement, Option.map_some, Option.getD_some, readUpTo_eq hroot] at h
  split at h
  · next roots hroots =>
    unfold finish at h
    split at h
    · cases h
    · next found s hrun =>
      cases h
      exact ⟨roots, s, hroots, hrun, rfl⟩
  · cases h

/-! ## The listing -/

/-- The listing of a document is made of accounts. An element-only element is checked against one
element pattern, and its account is empty if its children match the content of that pattern,
whatever it takes for a child to fit an element pattern beyond its name, and if everything in that
content is clear to the reader. -/
theorem listing_spares_matched (hroot : document.cursor? = some root)
    (hread : read compile document = .finished (some m) requests) {d : Diagnostics G}
    {top : Element} {messages : List String} (hexplain : m.explain d (some top) = some messages) :
    messages = (m.reached top).flatMap (m.account d) ∧
      ∀ o ∈ m.reached top, ∀ content, m.body o.index = .children content →
        (∃! c, EnteredFor compile document c o.index) ∧
          ∀ c, EnteredFor compile document c o.index → Clear (.ofRoot document root) c →
            ∀ fits : Cursor → Element → Prop, (∀ p e, fits p e → Named p e) →
              ContentMatches (.ofRoot document root) fits c o.element.children →
                m.account d o = [] := by
  refine ⟨m.eq_flatMap_account_of_explain hexplain, fun o _ content hbody => ?_⟩
  obtain ⟨roots, s, hroots, hrun, hm⟩ := exists_run_of_read hroot hread
  have hholds : document.Holds root := by
    obtain ⟨element, helement, rfl⟩ := Option.map_eq_some_iff.mp hroot
    exact Document.holds_root helement
  have hadmits : ∀ c declared es, document.Holds c → Says (.ofRoot document root) c declared →
      (Clear (.ofRoot document root) c ∧
        ∃ fits : Cursor → Element → Prop, (∀ p e, fits p e → Named p e) ∧
          ContentMatches (.ofRoot document root) fits c es) →
      declared.Admits (es.map Element.name) := by
    rintro c declared es - htells ⟨hclear, fits, hfits, hmatches⟩
    exact admits_of_contentMatches hclear hfits htells hmatches
  obtain ⟨⟨c, hc, honly⟩, hspared⟩ :=
    Recorded.account_eq_nil (keeps_roots hholds hroots) hrun hm hadmits d hbody
  refine ⟨⟨c, ⟨root, roots, hroot, hroots, hc⟩, fun c' hc' => ?_⟩, ?_⟩
  · exact honly c' (hc'.readFrom hroot hroots)
  · intro c hc hclear fits hfits hmatches
    exact hspared c (hc.readFrom hroot hroots) ⟨hclear, fits, hfits, hmatches⟩

end

/-! ## Grammars and documents written down -/

/-- A part of a grammar. -/
def part (name : String) (attributes : List (String × String)) (children : List Element) :
    Element :=
  .mk
    { name := name
      uri := some patternUri
      attributes := attributes.map (fun a => { name := a.1, value := a.2 }) }
    "" children

/-- A grammar with these parts. -/
def grammarOf (children : List Element) : Element :=
  .mk
    { name := "grammar"
      uri := some patternUri
      declarations := [{ qualifier := none, uri := patternUri }] }
    "" children

/-- A grammar document, whose elements are all written as nothing. -/
def documentOf (children : List Element) : Document where
  root := some (grammarOf children)
  serialize := fun _ => some ""

/-- A standalone grammar of such a document. -/
def standaloneText : String :=
  "<grammar xmlns=\"" ++ patternUri ++ "\"><start></start></grammar>"

/-!
## A pair

A pair has a first member, which holds one `x` or more, and may have a second member, by reference.
In `hollow` the first member is empty.
-/

namespace Pair

def first : Element :=
  part "element" [("name", "first")]
    [part "oneOrMore" [] [part "element" [("name", "x")] [part "text" [] []]]]

def second : Element :=
  part "element" [("name", "second")] [part "text" [] []]

def reference : Element :=
  part "ref" [("name", "member")] []

def pair : Element :=
  part "element" [("name", "pair")] [first, part "optional" [] [reference]]

def start : Element :=
  part "start" [] [pair]

def definition : Element :=
  part "define" [("name", "member")] [second]

def document : Document :=
  documentOf [start, definition]

def root : Cursor where
  element := grammarOf [start, definition]

def pattern : Cursor :=
  below (below root 0 start) 0 pair

def option : Cursor :=
  below pattern 1 (part "optional" [] [reference])

def secondPattern : Cursor :=
  below (below root 1 definition) 0 second

def hollow : Element :=
  plain "pair" [plain "first" [], plain "second" []]

def model : Model Nat where
  declarations :=
    [{ name := "pair"
       body := .children
         { ordered := true, particles := [⟨1, "first", 1, some 1⟩, ⟨3, "second", 0, some 1⟩] } },
     { name := "first"
       body := .children { ordered := true, particles := [⟨2, "x", 1, none⟩] } },
     { name := "x", body := .isolated 0 },
     { name := "second", body := .isolated 1 }]
  roots := [0]

theorem within_pattern {p : Cursor} (h : Within (.ofRoot document root) pattern p) :
    p ∈ [below pattern 0 first, option, below option 0 reference, secondPattern] := by
  induction h with
  | content hcontent hp =>
      cases hcontent with
      | written _ =>
          have hparts : parts pattern = [below pattern 0 first, option] := rfl
          rw [hparts] at hp
          exact List.mem_append_left [below option 0 reference, secondPattern] hp
      | nameClass hnone _ _ => cases hnone
  | inside _ hne hq ih =>
      rcases List.mem_cons.mp ih with rfl | ih
      · exact absurd rfl hne
      · rcases List.mem_cons.mp ih with rfl | ih
        · have hparts : parts option = [below option 0 reference] := rfl
          rw [hparts, List.mem_singleton] at hq
          simp [hq]
        · rcases List.mem_pair.mp ih with rfl | rfl
          · cases hq
          · exact absurd rfl hne
  | @defined p d q name _ href hwritten hd hq ih =>
      have hreference : p = below option 0 reference := by
        rcases List.mem_cons.mp ih with rfl | ih
        · exact absurd href (by decide)
        · rcases List.mem_cons.mp ih with rfl | ih
          · exact absurd href (by decide)
          · rcases List.mem_pair.mp ih with rfl | rfl
            · rfl
            · exact absurd href (by decide)
      subst hreference
      cases hwritten
      have hdefinitions : definitionsOf (.ofRoot document root) "member" =
          [below root 1 definition] := rfl
      rw [hdefinitions, List.mem_singleton] at hd
      subst hd
      have hparts : parts (below root 1 definition) = [secondPattern] := rfl
      rw [hparts, List.mem_singleton] at hq
      simp [hq]

theorem clear_pattern : Clear (.ofRoot document root) pattern where
  named := by
    intro p hp helement
    rcases List.mem_cons.mp (within_pattern hp) with rfl | hp
    · exact .inl rfl
    · rcases List.mem_cons.mp hp with rfl | hp
      · exact absurd helement (by decide)
      · rcases List.mem_pair.mp hp with rfl | rfl
        · exact absurd helement (by decide)
        · exact .inl rfl
  once := by
    intro p name hp href hwritten
    rcases List.mem_cons.mp (within_pattern hp) with rfl | hp
    · exact absurd href (by decide)
    · rcases List.mem_cons.mp hp with rfl | hp
      · exact absurd href (by decide)
      · rcases List.mem_pair.mp hp with rfl | rfl
        · cases hwritten
          exact ⟨below root 1 definition, rfl⟩
        · exact absurd href (by decide)

theorem contentMatches_hollow :
    ContentMatches (.ofRoot document root) Named pattern hollow.children := by
  have hfirst : Matches (.ofRoot document root) Named (below pattern 0 first)
      [plain "first" []] :=
    .element rfl (.written rfl (.of_plain (by decide) (by decide) rfl))
  have hsecond : Matches (.ofRoot document root) Named secondPattern [plain "second" []] :=
    .element rfl (.written rfl (.of_plain (by decide) (by decide) rfl))
  have hreference : Matches (.ofRoot document root) Named (below option 0 reference)
      [plain "second" []] := by
    refine .chosen rfl rfl ⟨?_, by decide⟩ (List.mem_singleton_self (below root 1 definition))
      (.cons hsecond .nil)
    intro d hd m hm
    obtain rfl := List.mem_singleton.mp hd
    cases hm
  have hoption : Matches (.ofRoot document root) Named option [plain "second" []] :=
    .present rfl (.cons hreference .nil)
  exact ⟨_, .written rfl, .cons hfirst (.cons hoption .nil)⟩

/-- The empty first member has a violation of its own, the pair has none. -/
theorem listing_spares_matched_hollow :
    model.explain lenient (some hollow) = some ["Element 'first': Missing child element 'x'."] ∧
      model.account lenient ⟨[], hollow, 0⟩ = [] := by
  have hread : read numbering document =
      .finished (some model) (List.replicate 2 standaloneText) := by
    decide +kernel
  have hexplain : model.explain lenient (some hollow) =
      some ["Element 'first': Missing child element 'x'."] := by
    decide +kernel
  have hentered : EnteredFor numbering document pattern 0 :=
    ⟨root, _, rfl, rfl, .of_run rfl (by decide +kernel)⟩
  have hroot : document.cursor? = some root := rfl
  obtain ⟨-, haccounts⟩ := listing_spares_matched hroot hread hexplain
  refine ⟨hexplain, ?_⟩
  exact (haccounts ⟨[], hollow, 0⟩ (.head _) _ rfl).2 pattern hentered clear_pattern Named
    (fun _ _ h => h) contentMatches_hollow

end Pair

/-!
## A name class, and a name that is defined twice

A menu has a drink and a dish. A drink is an element of any name; a dish is a soup or a cake, by two
definitions that are combined by choice. `lunch` is a tea and a soup.
-/

namespace Menu

def drink : Element :=
  part "element" [] [part "anyName" [] [], part "text" [] []]

def dish : Element :=
  part "ref" [("name", "dish")] []

def menu : Element :=
  part "element" [("name", "menu")] [drink, dish]

def served (name : String) : Element :=
  part "element" [("name", name)] [part "text" [] []]

def definition (name : String) : Element :=
  part "define" [("name", "dish"), ("combine", "choice")] [served name]

def start : Element :=
  part "start" [] [menu]

def document : Document :=
  documentOf [start, definition "soup", definition "cake"]

def root : Cursor where
  element := grammarOf [start, definition "soup", definition "cake"]

def pattern : Cursor :=
  below (below root 0 start) 0 menu

def lunch : Element :=
  plain "menu" [plain "tea" [], plain "soup" []]

/-- What is read of the grammar: a drink without a name, and of the two dishes only the cake. -/
def model : Model Nat where
  declarations :=
    [{ name := "menu"
       body := .children
         { ordered := true, particles := [⟨1, "", 1, some 1⟩, ⟨2, "cake", 1, some 1⟩] } },
     { name := "", body := .isolated 0 },
     { name := "cake", body := .isolated 1 }]
  roots := [0]

theorem valid_tea : Valid (.ofRoot document root) (below pattern 0 drink) (plain "tea" []) :=
  .mk (.nameClass rfl rfl (.anyName rfl rfl)) (.nameClass rfl rfl rfl) (.cons (.text rfl) .nil)

theorem valid_soup :
    Valid (.ofRoot document root) (below (below root 1 (definition "soup")) 0 (served "soup"))
      (plain "soup" []) :=
  .mk (.written rfl (.of_plain (by decide) (by decide) rfl)) (.written rfl)
    (.cons (.text rfl) .nil)

theorem valid_lunch : Valid (.ofRoot document root) pattern lunch := by
  have hdefinitions : definitionsOf (.ofRoot document root) "dish" =
      [below root 1 (definition "soup"), below root 2 (definition "cake")] := rfl
  have hcombined : CombinedBy "choice" (definitionsOf (.ofRoot document root) "dish") := by
    rw [hdefinitions]
    refine ⟨fun d hd m hm => ?_, by decide⟩
    rcases List.mem_pair.mp hd with rfl | rfl <;> cases hm <;> decide
  have hdish : Matches (.ofRoot document root) (Valid (.ofRoot document root))
      (below pattern 1 dish) [plain "soup" []] := by
    refine .chosen rfl rfl hcombined (hdefinitions ▸ List.mem_cons_self) ?_
    exact .cons (.element rfl valid_soup) .nil
  refine .mk (.written rfl (.of_plain (by decide) (by decide) rfl)) (.written rfl) ?_
  exact .cons (.element rfl valid_tea) (.cons hdish .nil)

/-- A document that is valid by the grammar has four violations in its listing, all of them said of
its root, whose children match the content of the element pattern that it is checked against. -/
theorem listing_faults_valid :
    read numbering document = .finished (some model)
        (List.replicate 2 standaloneText) ∧
      EnteredFor numbering document pattern 0 ∧
      Valid (.ofRoot document root) pattern lunch ∧
      ContentMatches (.ofRoot document root) (Valid (.ofRoot document root)) pattern
        lunch.children ∧
      model.explain lenient (some lunch) =
        some ["Element 'tea': This element is not expected in 'menu'.",
          "Element 'soup': This element is not expected in 'menu'.",
          "Element 'menu': Missing child element ''.",
          "Element 'menu': Missing child element 'cake'."] ∧
      model.account lenient ⟨[], lunch, 0⟩ =
        ["Element 'tea': This element is not expected in 'menu'.",
          "Element 'soup': This element is not expected in 'menu'.",
          "Element 'menu': Missing child element ''.",
          "Element 'menu': Missing child element 'cake'."] := by
  refine ⟨by decide +kernel, ?_, valid_lunch, ?_, by decide +kernel, by decide +kernel⟩
  · exact ⟨root, _, rfl, rfl, .of_run rfl (by decide +kernel)⟩
  · cases valid_lunch with
    | mk _ hcontent hgroup => exact ⟨_, hcontent, hgroup⟩

end Menu

end VideoCatalog.Grammar.Pattern
