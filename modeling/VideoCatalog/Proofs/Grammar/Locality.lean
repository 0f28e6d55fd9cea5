import VideoCatalog.Proofs.Grammar.Explain

/-!
# A change below one child stays there

Two documents that are alike but for one element are related by `DifferAt`: the path says where that
element is, and a relation says how the two versions of it compare. Along a path of reached
element-only elements the walk of `Model.explain` looks at the names of the children alone, so

* if the two versions have the same name, the two listings agree but for the accounts of what is
  reached at or below the change (`explain_split`);
* if they have the same name and the same children, and are reached and element-only, the listing is
  the same (`explain_eq_of_differAt`).
-/

namespace VideoCatalog.Grammar

open Xml (Element Tag)

/-! ## Documents that differ in one place -/

/-- Two elements that are alike but for what stands at a path below them, where they stand in the
relation `R`. -/
inductive DifferAt (R : Element → Element → Prop) : List Nat → Element → Element → Prop
  | here {e e' : Element} : R e e' → DifferAt R [] e e'
  | inside {path : List Nat} {tag : Tag} {text : String} {before after : List Element}
      {c c' : Element} :
      DifferAt R path c c' →
      DifferAt R (before.length :: path) (.mk tag text (before ++ c :: after))
        (.mk tag text (before ++ c' :: after))

/-- Two elements of the same local name. -/
def SameName (e e' : Element) : Prop :=
  e.name = e'.name

/-- Two elements that may differ in their character data and, but for the local name, in their
start tags. -/
def SameChildren (e e' : Element) : Prop :=
  e.name = e'.name ∧ e.children = e'.children

theorem DifferAt.mono {R S : Element → Element → Prop} {path : List Nat} {e e' : Element}
    (himp : ∀ e e', R e e' → S e e') (h : DifferAt R path e e') : DifferAt S path e e' := by
  induction h with
  | here hr => exact .here (himp _ _ hr)
  | inside _ ih => exact .inside ih

theorem DifferAt.name_eq {path : List Nat} {e e' : Element} (h : DifferAt SameName path e e') :
    e.name = e'.name := by
  cases h with
  | here hname => exact hname
  | inside _ => rfl

namespace Model

variable {G : Type} {m : Model G} {e c c' : Element} {index next next' i : Nat}
  {content : DeclaredContent}

/-! ## The list around one child -/

theorem childOccurrences_append (m : Model G) :
    ∀ (before after : List Element) (slots : List (Slot Nat)) (i : Nat),
      m.childOccurrences i (before ++ after) slots =
        m.childOccurrences i before slots ++
          m.childOccurrences (i + before.length) after (slots.drop before.length)
  | [], after, slots, i => by simp [childOccurrences]
  | _ :: before, after, [], i => by cases after <;> simp [childOccurrences]
  | child :: before, after, slot :: slots, i => by
      rw [List.cons_append, childOccurrences, childOccurrences,
        childOccurrences_append m before after slots (i + 1), List.append_assoc,
        List.length_cons, List.drop_succ_cons, Nat.add_assoc, Nat.add_comm 1]

/-- What is reached from the child at a position, by the slot it has there. -/
def handed (m : Model G) (slots : List (Slot Nat)) (i : Nat) (c : Element) : List Occurrence :=
  match slots[i]?.bind Slot.target? with
  | some next => (m.occurrences c next).map (Occurrence.under i)
  | none => []

theorem childOccurrences_cons (m : Model G) (c : Element) (after : List Element)
    (slots : List (Slot Nat)) (i j : Nat) (hi : i = j) :
    m.childOccurrences i (c :: after) (slots.drop j) =
      m.handed slots j c ++ m.childOccurrences (i + 1) after (slots.drop (j + 1)) := by
  subst hi
  unfold handed
  cases hs : slots[i]? with
  | none =>
      have hlen : slots.length ≤ i := List.getElem?_eq_none_iff.mp hs
      rw [List.drop_eq_nil_of_le hlen, List.drop_eq_nil_of_le (Nat.le_succ_of_le hlen)]
      cases after <;> simp [childOccurrences]
  | some slot =>
      obtain ⟨hlt, hslot⟩ := List.getElem?_eq_some_iff.mp hs
      have hdrop : slots.drop i = slot :: slots.drop (i + 1) := by
        rw [List.drop_eq_getElem_cons hlt, hslot]
      cases htarget : slot.target? with
      | none => simp [hdrop, childOccurrences, htarget]
      | some next => simp [hdrop, childOccurrences, htarget]

/-- The list of an element-only element, split at one of its children. -/
theorem occurrences_split (hb : m.body index = .children content) (tag : Tag) (text : String)
    (before after : List Element) (c : Element) {slots : List (Slot Nat)}
    (hslots : content.place ((before ++ c :: after).map Element.name) = slots) :
    m.occurrences (.mk tag text (before ++ c :: after)) index =
      ⟨[], .mk tag text (before ++ c :: after), index⟩ ::
        (m.childOccurrences 0 before slots ++
          (m.handed slots before.length c ++
            m.childOccurrences (before.length + 1) after (slots.drop (before.length + 1)))) := by
  rw [occurrences_eq, hb]
  show _ :: m.childOccurrences 0 (before ++ c :: after)
    (content.place ((before ++ c :: after).map Element.name)) = _
  rw [hslots, childOccurrences_append, childOccurrences_cons m c after slots _ _ (Nat.zero_add _),
    Nat.zero_add]

/-- The slots of the children depend on their names alone. -/
theorem place_eq_of_name_eq (content : DeclaredContent) (before after : List Element)
    (hname : c'.name = c.name) :
    content.place ((before ++ c' :: after).map Element.name) =
      content.place ((before ++ c :: after).map Element.name) := by
  simp [hname]

/-- So does what an element-only element has to say. -/
theorem account?_eq_of_name_eq (d : Diagnostics G) (hb : m.body index = .children content)
    (tag : Tag) (text : String) (before after : List Element) (hname : c'.name = c.name) :
    m.account? d ⟨[], .mk tag text (before ++ c' :: after), index⟩ =
      m.account? d ⟨[], .mk tag text (before ++ c :: after), index⟩ := by
  simp [account?, hb, Element.children, hname]

/-! ## Paths of element-only elements -/

/-- The element at a path is reached and element-only. -/
def OpenAt (m : Model G) (e : Element) (index : Nat) (path : List Nat) : Prop :=
  ∃ element k content, m.Reaches e index ⟨path, element, k⟩ ∧ m.body k = .children content

theorem openAt_nil (h : m.OpenAt e index []) : ∃ content, m.body index = .children content := by
  obtain ⟨element, k, content, hr, hb⟩ := h
  rcases reaches_iff.mp hr with heq | ⟨i, c, next, o, _, _, heq⟩
  · cases heq
    exact ⟨content, hb⟩
  · cases heq

theorem openAt_cons {path : List Nat} (h : m.OpenAt e index (i :: path)) :
    ∃ c next, m.HandsOn e index i c next ∧ m.OpenAt c next path := by
  obtain ⟨element, k, content, hr, hb⟩ := h
  rcases reaches_iff.mp hr with heq | ⟨j, c, next, o, hstep, ho, heq⟩
  · cases heq
  · cases heq
    exact ⟨c, next, hstep, o.element, o.index, content, ho, hb⟩

/-- A position leads to one child and one declaration. -/
theorem handsOn_unique (h : m.HandsOn e index i c next) (h' : m.HandsOn e index i c' next') :
    c = c' ∧ next = next' := by
  obtain ⟨content, slot, hb, hc, hs, hn⟩ := h
  obtain ⟨content', slot', hb', hc', hs', hn'⟩ := h'
  cases hb.symm.trans hb'
  cases hs.symm.trans hs'
  exact ⟨Option.some.inj (hc.symm.trans hc'), Option.some.inj (hn.symm.trans hn')⟩

/-- The child in the middle is handed on to the declaration in its slot. -/
theorem handsOn_middle (hb : m.body index = .children content) (tag : Tag) (text : String)
    (before after : List Element) (c : Element) {slots : List (Slot Nat)}
    (hslots : content.place ((before ++ c :: after).map Element.name) = slots)
    (hn : slots[before.length]?.bind Slot.target? = some next) :
    m.HandsOn (.mk tag text (before ++ c :: after)) index before.length c next := by
  obtain ⟨slot, hs, htarget⟩ := Option.bind_eq_some_iff.mp hn
  exact ⟨content, slot, hb, by simp [Element.children], by rw [← hs, ← hslots]; rfl, htarget⟩

/-! ## The two listings -/

/-- What the reached elements at or below a path have to say. -/
def accountsBelow (m : Model G) (d : Diagnostics G) (path : List Nat) (reached : List Occurrence) :
    List String :=
  (reached.filter (fun o => path.isPrefixOf o.path)).flatMap (m.account d)

theorem accountsBelow_nil (m : Model G) (d : Diagnostics G) (reached : List Occurrence) :
    m.accountsBelow d [] reached = reached.flatMap (m.account d) := by
  rw [accountsBelow, List.filter_eq_self.mpr]
  intro o _
  rfl

/-- The start of a list has no part in the accounts below one of its children. -/
theorem accountsBelow_cons_start (m : Model G) (d : Diagnostics G) (path : List Nat) (e : Element)
    (index : Nat) (reached : List Occurrence) :
    m.accountsBelow d (i :: path) (⟨[], e, index⟩ :: reached) =
      m.accountsBelow d (i :: path) reached := rfl

theorem accountsBelow_append (m : Model G) (d : Diagnostics G) (path : List Nat)
    (first second : List Occurrence) :
    m.accountsBelow d path (first ++ second) =
      m.accountsBelow d path first ++ m.accountsBelow d path second := by
  simp only [accountsBelow, List.filter_append, List.flatMap_append]

theorem accountsBelow_under (m : Model G) (d : Diagnostics G) (path : List Nat)
    (reached : List Occurrence) :
    m.accountsBelow d (i :: path) (reached.map (Occurrence.under i)) =
      m.accountsBelow d path reached := by
  unfold accountsBelow
  rw [List.filter_map, List.flatMap_map]
  have prefixes : ((fun o : Occurrence => (i :: path).isPrefixOf o.path) ∘ Occurrence.under i) =
      fun o => path.isPrefixOf o.path := by
    funext o
    simp
  rw [prefixes]
  rfl

/-- What is reached from other children has no part in the accounts below one of them. -/
theorem accountsBelow_childOccurrences (m : Model G) (d : Diagnostics G) (path : List Nat)
    (children : List Element) (slots : List (Slot Nat)) {j : Nat}
    (hi : i < j ∨ j + children.length ≤ i) :
    m.accountsBelow d (i :: path) (m.childOccurrences j children slots) = [] := by
  unfold accountsBelow
  rw [List.filter_eq_nil_iff.mpr, List.flatMap_nil]
  intro o ho
  obtain ⟨k, q, hq, hk, hlt⟩ := exists_path_of_mem_childOccurrences ho
  have hne : i ≠ k := by omega
  simp [hq, List.isPrefixOf, hne]

theorem flatMap_account_under (m : Model G) (d : Diagnostics G) (i : Nat)
    (reached : List Occurrence) :
    (reached.map (Occurrence.under i)).flatMap (m.account d) = reached.flatMap (m.account d) := by
  rw [List.flatMap_map]
  rfl

/-- Of an element-only element, only one child has a part in the accounts below that child. -/
theorem accountsBelow_split (d : Diagnostics G) (hb : m.body index = .children content) (tag : Tag)
    (text : String) (before after : List Element) (c : Element) {slots : List (Slot Nat)}
    (hslots : content.place ((before ++ c :: after).map Element.name) = slots)
    (path : List Nat) :
    m.accountsBelow d (before.length :: path)
        (m.occurrences (.mk tag text (before ++ c :: after)) index) =
      m.accountsBelow d (before.length :: path) (m.handed slots before.length c) := by
  rw [occurrences_split hb tag text before after c hslots, accountsBelow_cons_start,
    accountsBelow_append, accountsBelow_append,
    accountsBelow_childOccurrences m d path before slots (Or.inr (by simp)),
    accountsBelow_childOccurrences m d path after _ (Or.inl (Nat.lt_succ_self _)),
    List.nil_append, List.append_nil]

/-- The accounts around a change. Along the path every element is reached and element-only, so it
is the same in both documents but for the elements below it, and it looks at their names alone. -/
theorem accounts_split (m : Model G) (d : Diagnostics G) {path : List Nat} {e e' : Element}
    (h : DifferAt SameName path e e') :
    ∀ index, (∀ q i, path = q ++ [i] → m.OpenAt e index q) →
      ∃ before after,
        (m.occurrences e index).flatMap (m.account d) =
            before ++ m.accountsBelow d path (m.occurrences e index) ++ after ∧
          (m.occurrences e' index).flatMap (m.account d) =
            before ++ m.accountsBelow d path (m.occurrences e' index) ++ after := by
  induction h with
  | here _ =>
      intro index _
      exact ⟨[], [], by simp [accountsBelow_nil], by simp [accountsBelow_nil]⟩
  | @inside path tag text pre post c c' hc ih =>
      intro index hopen
      obtain ⟨content, hb⟩ : ∃ content, m.body index = .children content := by
        rcases List.eq_nil_or_concat path with rfl | ⟨q, i, rfl⟩
        · exact openAt_nil (hopen [] pre.length rfl)
        · obtain ⟨_, _, ⟨content, _, hb, _⟩, _⟩ :=
            openAt_cons (hopen (pre.length :: q) i (by simp [List.concat_eq_append]))
          exact ⟨content, hb⟩
      have hname : c'.name = c.name := hc.name_eq.symm
      have hself := account?_eq_of_name_eq d hb tag text pre post hname
      generalize hslots : content.place ((pre ++ c :: post).map Element.name) = slots
      have hslots' : content.place ((pre ++ c' :: post).map Element.name) = slots :=
        (place_eq_of_name_eq content pre post hname).trans hslots
      have hmiddle : ∃ before after,
          (m.handed slots pre.length c).flatMap (m.account d) =
              before ++ m.accountsBelow d (pre.length :: path) (m.handed slots pre.length c) ++
                after ∧
            (m.handed slots pre.length c').flatMap (m.account d) =
              before ++ m.accountsBelow d (pre.length :: path) (m.handed slots pre.length c') ++
                after := by
        cases hn : slots[pre.length]?.bind Slot.target? with
        | none =>
            -- a child of unknown name is not walked in either document
            exact ⟨[], [], by simp [handed, hn, accountsBelow], by simp [handed, hn, accountsBelow]⟩
        | some next =>
            have hstep := handsOn_middle hb tag text pre post c hslots hn
            have hopen' : ∀ q i, path = q ++ [i] → m.OpenAt c next q := by
              rintro q i rfl
              obtain ⟨c₁, next₁, hstep₁, h₁⟩ := openAt_cons (hopen (pre.length :: q) i rfl)
              obtain ⟨rfl, rfl⟩ := handsOn_unique hstep hstep₁
              exact h₁
            obtain ⟨before, after, hleft, hright⟩ := ih next hopen'
            refine ⟨before, after, ?_, ?_⟩
            · simp only [handed, hn, accountsBelow_under, flatMap_account_under, hleft]
            · simp only [handed, hn, accountsBelow_under, flatMap_account_under, hright]
      obtain ⟨before, after, hleft, hright⟩ := hmiddle
      rw [accountsBelow_split d hb tag text pre post c hslots path,
        accountsBelow_split d hb tag text pre post c' hslots' path,
        occurrences_split hb tag text pre post c hslots,
        occurrences_split hb tag text pre post c' hslots']
      refine ⟨m.account d ⟨[], .mk tag text (pre ++ c :: post), index⟩ ++
        (m.childOccurrences 0 pre slots).flatMap (m.account d) ++ before,
        after ++ (m.childOccurrences (pre.length + 1) post
          (slots.drop (pre.length + 1))).flatMap (m.account d), ?_, ?_⟩
      · simp only [List.flatMap_cons, List.flatMap_append, hleft, List.append_assoc]
      · simp only [List.flatMap_cons, List.flatMap_append, hright, List.append_assoc, account, hself]

/-! ## Changes that the model does not look at -/

/-- If only the start tag and the character data of an element-only element change, every reached
element keeps its account. -/
theorem gather_eq_of_differAt (m : Model G) (d : Diagnostics G) {path : List Nat} {e e' : Element}
    (h : DifferAt SameChildren path e e') :
    ∀ index, m.OpenAt e index path →
      gather (m.account? d) (m.occurrences e index) =
        gather (m.account? d) (m.occurrences e' index) := by
  induction h with
  | @here e e' hr =>
      intro index hopen
      obtain ⟨content, hb⟩ := openAt_nil hopen
      rw [occurrences_eq, occurrences_eq, hb, hr.2, gather, gather]
      simp [account?, hb, hr.2]
  | @inside path tag text pre post c c' hc ih =>
      intro index hopen
      obtain ⟨c₁, next, hstep, hopen'⟩ := openAt_cons hopen
      obtain ⟨content, slot, hb, hchild, hslot, htarget⟩ := hstep
      have hname : c'.name = c.name := (hc.mono (fun _ _ hr => hr.1)).name_eq.symm
      have hself := account?_eq_of_name_eq d hb tag text pre post hname
      obtain rfl : c = c₁ := by simpa [Element.children] using hchild
      generalize hslots : content.place ((pre ++ c :: post).map Element.name) = slots
      have hslots' : content.place ((pre ++ c' :: post).map Element.name) = slots :=
        (place_eq_of_name_eq content pre post hname).trans hslots
      have hn : slots[pre.length]?.bind Slot.target? = some next := by
        rw [← hslots]
        exact Option.bind_eq_some_iff.mpr ⟨slot, hslot, htarget⟩
      rw [occurrences_split hb tag text pre post c hslots,
        occurrences_split hb tag text pre post c' hslots']
      simp only [gather, gather_append, gather_map, handed, hn, account?_under, hself,
        ih next hopen']

/-- A listing does not change with the start tag or the character data of a reached element-only
element. -/
theorem explain_eq_of_differAt (m : Model G) (d : Diagnostics G) {root root' : Element}
    {o : Occurrence} (hr : m.Reached root o) (hb : m.body o.index = .children content)
    (h : DifferAt SameChildren o.path root root') :
    m.explain d (some root) = m.explain d (some root') := by
  obtain ⟨index, hindex, hreaches⟩ := hr
  have hname : root.name = root'.name := (h.mono (fun _ _ hr => hr.1)).name_eq
  have hindex' : m.root? root'.name = some index := hname ▸ hindex
  rw [explain_eq_gather, explain_eq_gather, reached, reached, hindex, hindex']
  exact gather_eq_of_differAt m d h index ⟨o.element, o.index, content, hreaches, hb⟩

end Model

end VideoCatalog.Grammar
