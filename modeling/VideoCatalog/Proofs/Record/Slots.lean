import Mathlib.Data.List.Forall2
import Mathlib.Logic.Basic
import VideoCatalog.Proofs.Outcome
import VideoCatalog.Proofs.Text.Lexical

/-!
# Children in any order are read into the fields that they stand for

A record is described by slots: the name of a child, what the child has to be like, and which value
it stands for. `Meets slots es` says that the elements `es` have one child for each slot, or none
where the slot allows it, and that the children fit; their order does not matter, and neither do
other children. `Denotes slots es a` says that `a` has the values that the children stand for.

A reader that takes one child after the other gets such an `a` (`foldlM_of_meets`) if each slot is
read on its own (`Slot.ReadBy`): the child of its name is read into its field, and no other child
touches it. `itemSlots` and `mediaSlots` are the slots of a record and of a variant, and
`ofElement_of_meets` is what that says of reading a record.
-/

namespace VideoCatalog

open Xml (Element)

/-! ## Slots -/

/-- The place of a child in an element that is read as an `α`. -/
structure Slot (α : Type) where
  name : String
  /-- What the child of this name has to be like, or that there may be none. -/
  fits : Option Element → Prop
  /-- The value read has what the child stands for. -/
  denotes : Option Element → α → Prop

/-- The only element of this name, if there is one at all. -/
def Sole (es : List Element) (name : String) (child : Option Element) : Prop :=
  es.filter (fun e => e.name = name) = child.toList

/-- There is a fitting child for each slot. -/
def Meets {α : Type} (slots : List (Slot α)) (es : List Element) : Prop :=
  ∀ slot ∈ slots, ∃ child, Sole es slot.name child ∧ slot.fits child

/-- The value has what the children stand for. -/
def Denotes {α : Type} (slots : List (Slot α)) (es : List Element) (a : α) : Prop :=
  ∀ slot ∈ slots, ∃ child, Sole es slot.name child ∧ slot.denotes child a

theorem Sole.unique {es : List Element} {name : String} {child child' : Option Element}
    (h : Sole es name child) (h' : Sole es name child') : child = child' := by
  have hlists : child.toList = child'.toList := h.symm.trans h'
  cases child with
  | none =>
      cases child' with
      | none => rfl
      | some e => cases hlists
  | some e =>
      cases child' with
      | none => cases hlists
      | some e' =>
          cases hlists
          rfl

/-- Without its first element of another name, a list has the same child. -/
theorem Sole.of_cons_ne {e : Element} {es : List Element} {name : String} {child : Option Element}
    (h : Sole (e :: es) name child) (hname : e.name ≠ name) : Sole es name child := by
  unfold Sole at h ⊢
  rwa [List.filter_cons_of_neg (by simpa using hname)] at h

/-- An element of the name at the front is the child, and there is no other. -/
theorem Sole.of_cons_eq {e : Element} {es : List Element} {child : Option Element}
    (h : Sole (e :: es) e.name child) : child = some e ∧ Sole es e.name none := by
  unfold Sole at h ⊢
  rw [List.filter_cons_of_pos (by simp)] at h
  cases child with
  | none => cases h
  | some e' =>
      obtain ⟨rfl, hrest⟩ := List.cons.inj h
      exact ⟨rfl, hrest⟩

theorem Sole.eq_some {e : Element} {es : List Element} {name : String} {child : Option Element}
    (h : Sole es name child) (he : e ∈ es) (hname : e.name = name) : child = some e := by
  have hmem : e ∈ child.toList := by
    rw [← h]
    exact List.mem_filter.mpr ⟨he, by simpa using hname⟩
  exact Option.mem_toList.mp hmem

/-! ## Children piece by piece -/

/-- The elements are the child of the slot, if there is one: they bear its name and fit. -/
def Slot.Holds {α : Type} (slot : Slot α) (piece : List Element) : Prop :=
  ∃ child : Option Element, piece = child.toList ∧ (∀ e ∈ child, e.name = slot.name) ∧
    slot.fits child

/-- Elements of other names do not count. -/
theorem Slot.Holds.filter_eq_nil {α : Type} {slot : Slot α} {piece : List Element} {name : String}
    (h : slot.Holds piece) (hname : slot.name ≠ name) :
    piece.filter (fun e => e.name = name) = [] := by
  obtain ⟨child, rfl, hnames, -⟩ := h
  rw [List.filter_eq_nil_iff]
  intro e he
  rw [hnames e (Option.mem_toList.mp he)]
  simpa using hname

/-- The pieces of several slots hold the child of each of them. -/
theorem sole_flatten {α : Type} {slots : List (Slot α)} {pieces : List (List Element)}
    (h : List.Forall₂ Slot.Holds slots pieces) (hnames : (slots.map Slot.name).Nodup)
    {slot : Slot α} (hslot : slot ∈ slots) :
    ∃ child, Sole pieces.flatten slot.name child ∧ slot.fits child := by
  induction h with
  | nil => cases hslot
  | @cons slot' piece slots pieces hpiece hpieces ih =>
      rw [List.map_cons, List.nodup_cons] at hnames
      obtain ⟨hfresh, hnames⟩ := hnames
      rcases List.mem_cons.mp hslot with rfl | hslot
      · -- None of the later pieces has the name of the first one.
        have hothers : pieces.flatten.filter (fun e => e.name = slot.name) = [] := by
          clear ih hnames
          induction hpieces with
          | nil => rfl
          | @cons other piece' slots pieces hother _ ih =>
              rw [List.map_cons, List.mem_cons, not_or] at hfresh
              rw [List.flatten_cons, List.filter_append,
                hother.filter_eq_nil (Ne.symm hfresh.1), ih List.mem_cons_self hfresh.2]
              rfl
        obtain ⟨child, rfl, hchild, hfits⟩ := hpiece
        refine ⟨child, ?_, hfits⟩
        rw [Sole, List.flatten_cons, List.filter_append, hothers, List.append_nil]
        refine List.filter_eq_self.mpr ?_
        intro e he
        simpa using hchild e (Option.mem_toList.mp he)
      · obtain ⟨child, hsole, hfits⟩ := ih hnames hslot
        refine ⟨child, ?_, hfits⟩
        have hne : slot'.name ≠ slot.name := by
          intro heq
          exact hfresh (heq ▸ List.mem_map_of_mem hslot)
        rw [Sole, List.flatten_cons, List.filter_append, hpiece.filter_eq_nil hne]
        exact hsole

/-- A list has the same child as any rearrangement of it. -/
theorem Sole.of_perm {es es' : List Element} {name : String} {child : Option Element}
    (h : Sole es name child) (hperm : es'.Perm es) : Sole es' name child := by
  have hfiltered := hperm.filter (fun e => e.name = name)
  unfold Sole at h ⊢
  rw [h] at hfiltered
  cases child with
  | none => exact hfiltered.eq_nil
  | some e => exact List.perm_singleton.mp hfiltered

/-- Elements that are the children of all slots, in any order. -/
theorem meets_of_pieces {α : Type} {slots : List (Slot α)} {pieces : List (List Element)}
    {es : List Element} (hnames : (slots.map Slot.name).Nodup)
    (h : List.Forall₂ Slot.Holds slots pieces) (hperm : es.Perm pieces.flatten) :
    Meets slots es := by
  intro slot hslot
  obtain ⟨child, hsole, hfits⟩ := sole_flatten h hnames hslot
  exact ⟨child, hsole.of_perm hperm, hfits⟩

/-- Where each piece goes with a part of a grammar and each part describes a slot, the pieces hold
the children of the slots. -/
theorem holds_of_described {α β : Type} {goes : β → List Element → Prop} {ps : List β}
    {slots : List (Slot α)} {pieces : List (List Element)}
    (hparts : List.Forall₂ (fun p slot => ∀ piece, goes p piece → slot.Holds piece) ps slots)
    (h : List.Forall₂ goes ps pieces) : List.Forall₂ Slot.Holds slots pieces := by
  induction hparts generalizing pieces with
  | nil =>
      cases h
      exact .nil
  | cons hpart _ ih =>
      cases h with
      | cons hpiece hpieces => exact .cons (hpart _ hpiece) (ih hpieces)

/-! ## Reading slot by slot -/

section Reading

variable {α : Type} {read : α → Element → Except ReadError α} {initial a a' : α}
  {slot : Slot α} {slots : List (Slot α)} {e : Element} {es : List Element}

/-- The child of the slot is read into its field, and other children leave the field alone. -/
structure Slot.ReadBy (read : α → Element → Except ReadError α) (initial : α) (slot : Slot α) :
    Prop where
  takes : ∀ e, e.name = slot.name → slot.fits (some e) →
    ∀ a, ∃ a', read a e = .ok a' ∧ slot.denotes (some e) a'
  leaves : ∀ e, e.name ≠ slot.name → ∀ a a', read a e = .ok a' →
    ∀ child, slot.denotes child a → slot.denotes child a'
  starts : slot.fits none → slot.denotes none initial

/-- Where every step succeeds from wherever it is taken, all of them do. -/
theorem exists_foldlM_eq_ok (h : ∀ e ∈ es, ∀ a, ∃ a', read a e = .ok a') (a : α) :
    ∃ a', es.foldlM read a = .ok a' := by
  induction es generalizing a with
  | nil => exact ⟨a, rfl⟩
  | cons e es ih =>
      obtain ⟨hfirst, hrest⟩ := List.forall_mem_cons.mp h
      obtain ⟨a₁, ha₁⟩ := hfirst a
      rw [List.foldlM_cons, ha₁]
      exact ih hrest a₁

/-- The first step of reading, taken apart from the others. -/
theorem exists_of_foldlM_cons (h : (e :: es).foldlM read a = .ok a') :
    ∃ a₁, read a e = .ok a₁ ∧ es.foldlM read a₁ = .ok a' := by
  rw [List.foldlM_cons] at h
  exact exists_of_bind_eq_ok h

/-- Without a child of the slot its field stays as it is. -/
theorem Slot.ReadBy.leaves_all (hslot : slot.ReadBy read initial) (hnone : Sole es slot.name none)
    {child : Option Element} (ha : slot.denotes child a) (h : es.foldlM read a = .ok a') :
    slot.denotes child a' := by
  induction es generalizing a with
  | nil =>
      cases h
      exact ha
  | cons e es ih =>
      have hname : e.name ≠ slot.name := by
        intro hname
        cases hnone.eq_some List.mem_cons_self hname
      obtain ⟨a₁, hread, hrest⟩ := exists_of_foldlM_cons h
      exact ih (hnone.of_cons_ne hname) (hslot.leaves e hname a a₁ hread child ha) hrest

/-- Wherever the child of the slot stands, its field has the value of it in the end. -/
theorem Slot.ReadBy.takes_one (hslot : slot.ReadBy read initial)
    (hchild : Sole es slot.name (some e)) (hfits : slot.fits (some e))
    (h : es.foldlM read a = .ok a') : slot.denotes (some e) a' := by
  induction es generalizing a with
  | nil => cases hchild
  | cons e₁ es ih =>
      obtain ⟨a₁, hread, hrest⟩ := exists_of_foldlM_cons h
      by_cases hname : e₁.name = slot.name
      · rw [← hname] at hchild
        obtain ⟨hsame, hnone⟩ := hchild.of_cons_eq
        obtain rfl := Option.some.inj hsame
        obtain ⟨a₂, hread', hdenotes⟩ := hslot.takes e hname hfits a
        obtain rfl := Except.ok.inj (hread.symm.trans hread')
        rw [hname] at hnone
        exact hslot.leaves_all hnone hdenotes hrest
      · exact ih (hchild.of_cons_ne hname) hrest

/-- Fitting children in any order are read, and the result has what they stand for. -/
theorem foldlM_of_meets (hslots : ∀ slot ∈ slots, slot.ReadBy read initial)
    (hothers : ∀ e, (∀ slot ∈ slots, e.name ≠ slot.name) → ∀ a, ∃ a', read a e = .ok a')
    (h : Meets slots es) : ∃ a, es.foldlM read initial = .ok a ∧ Denotes slots es a := by
  have hsteps : ∀ e ∈ es, ∀ a, ∃ a', read a e = .ok a' := by
    intro e he a
    by_cases hslot : ∃ slot ∈ slots, e.name = slot.name
    · obtain ⟨slot, hslot, hname⟩ := hslot
      obtain ⟨child, hsole, hfits⟩ := h slot hslot
      rw [hsole.eq_some he hname] at hfits
      obtain ⟨a', hread, -⟩ := (hslots slot hslot).takes e hname hfits a
      exact ⟨a', hread⟩
    · refine hothers e ?_ a
      intro slot hmem hname
      exact hslot ⟨slot, hmem, hname⟩
  obtain ⟨a, ha⟩ := exists_foldlM_eq_ok hsteps initial
  refine ⟨a, ha, ?_⟩
  intro slot hslot
  obtain ⟨child, hsole, hfits⟩ := h slot hslot
  refine ⟨child, hsole, ?_⟩
  cases child with
  | none => exact (hslots slot hslot).leaves_all hsole ((hslots slot hslot).starts hfits) ha
  | some e => exact (hslots slot hslot).takes_one hsole hfits ha

end Reading

/-! ## Kinds of slots -/

namespace Slot

variable {α β : Type}

/-- A child with a text that stands for a value. -/
def value (name : String) (stands : String → β → Prop) (get : α → β) : Slot α where
  name := name
  fits child := ∃ e v, child = some e ∧ stands e.text v
  denotes child a := ∃ e, child = some e ∧ stands e.text (get a)

/-- A child of this kind that may be missing. -/
def optional (name : String) (stands : String → β → Prop) (get : α → Option β) : Slot α where
  name := name
  fits child := ∀ e, child = some e → ∃ v, stands e.text v
  denotes child a :=
    (child = none ∧ get a = none) ∨ ∃ e v, child = some e ∧ get a = some v ∧ stands e.text v

/-- A child whose children, all of one name, are read in order. -/
def list (name item : String) (slots : List (Slot β)) (get : α → List β) : Slot α where
  name := name
  fits child := ∃ e, child = some e ∧ ∀ c ∈ e.children, c.name = item ∧ Meets slots c.children
  denotes child a :=
    ∃ e, child = some e ∧ List.Forall₂ (fun c b => Denotes slots c.children b) e.children (get a)

section Holds

variable {name item : String} {stands : String → β → Prop} {slots : List (Slot β)} {e : Element}

theorem holds_value {get : α → β} (hname : e.name = name) (hvalue : ∃ v, stands e.text v) :
    (value name stands get).Holds [e] := by
  obtain ⟨v, hv⟩ := hvalue
  refine ⟨some e, rfl, ?_, e, v, rfl, hv⟩
  rintro e' ⟨⟩
  exact hname

theorem holds_optional_nil {get : α → Option β} : (optional name stands get).Holds [] := by
  refine ⟨none, rfl, ?_, ?_⟩
  · rintro e' ⟨⟩
  · rintro e' ⟨⟩

theorem holds_optional {get : α → Option β} (hname : e.name = name)
    (hvalue : ∃ v, stands e.text v) : (optional name stands get).Holds [e] := by
  refine ⟨some e, rfl, ?_, ?_⟩
  · rintro e' ⟨⟩
    exact hname
  · rintro e' ⟨⟩
    exact hvalue

theorem holds_list {get : α → List β} (hname : e.name = name)
    (hchildren : ∀ c ∈ e.children, c.name = item ∧ Meets slots c.children) :
    (list name item slots get).Holds [e] := by
  refine ⟨some e, rfl, ?_, e, rfl, hchildren⟩
  rintro e' ⟨⟩
  exact hname

end Holds

section ReadBy

variable {read : α → Element → Except ReadError α} {initial : α} {name item : String}
  {stands : String → β → Prop} {slots : List (Slot β)}

theorem readBy_value {get : α → β}
    (htakes : ∀ a e v, e.name = name → stands e.text v →
      ∃ a', read a e = .ok a' ∧ stands e.text (get a'))
    (hleaves : ∀ a e a', e.name ≠ name → read a e = .ok a' → get a' = get a) :
    (value name stands get).ReadBy read initial where
  takes := by
    rintro e hname ⟨e', v, hsome, hstands⟩ a
    obtain rfl := Option.some.inj hsome
    obtain ⟨a', hread, hstands⟩ := htakes a e v hname hstands
    exact ⟨a', hread, e, rfl, hstands⟩
  leaves := by
    rintro e hname a a' hread child ⟨e', hchild, hstands⟩
    refine ⟨e', hchild, ?_⟩
    rw [hleaves a e a' hname hread]
    exact hstands
  starts := by
    rintro ⟨e, v, hnone, -⟩
    cases hnone

theorem readBy_optional {get : α → Option β} (hinitial : get initial = none)
    (htakes : ∀ a e v, e.name = name → stands e.text v →
      ∃ a' v', read a e = .ok a' ∧ get a' = some v' ∧ stands e.text v')
    (hleaves : ∀ a e a', e.name ≠ name → read a e = .ok a' → get a' = get a) :
    (optional name stands get).ReadBy read initial where
  takes := by
    intro e hname hfits a
    obtain ⟨v, hstands⟩ := hfits e rfl
    obtain ⟨a', v', hread, hget, hstands⟩ := htakes a e v hname hstands
    exact ⟨a', hread, .inr ⟨e, v', rfl, hget, hstands⟩⟩
  leaves := by
    intro e hname a a' hread child hdenotes
    show (_ ∧ get a' = none) ∨ ∃ e v, _ ∧ get a' = some v ∧ _
    rw [hleaves a e a' hname hread]
    exact hdenotes
  starts := fun _ => .inl ⟨rfl, hinitial⟩

theorem readBy_list {get : α → List β}
    (htakes : ∀ a e, e.name = name → (∀ c ∈ e.children, c.name = item ∧ Meets slots c.children) →
      ∃ a', read a e = .ok a' ∧
        List.Forall₂ (fun c b => Denotes slots c.children b) e.children (get a'))
    (hleaves : ∀ a e a', e.name ≠ name → read a e = .ok a' → get a' = get a) :
    (list name item slots get).ReadBy read initial where
  takes := by
    rintro e hname ⟨e', hsome, hchildren⟩ a
    obtain rfl := Option.some.inj hsome
    obtain ⟨a', hread, hdenotes⟩ := htakes a e hname hchildren
    exact ⟨a', hread, e, rfl, hdenotes⟩
  leaves := by
    rintro e hname a a' hread child ⟨e', hchild, hdenotes⟩
    refine ⟨e', hchild, ?_⟩
    rw [hleaves a e a' hname hread]
    exact hdenotes
  starts := by
    rintro ⟨e, hnone, -⟩
    cases hnone

end ReadBy

section Unique

variable {name item : String} {stands : String → β → Prop} {slots : List (Slot β)}
  {es : List Element} {a a' : α}

/-- Where a text stands for one value only, the children determine the field. -/
theorem value_unique {get : α → β} (hstands : ∀ s v v', stands s v → stands s v' → v = v')
    (h : ∃ child, Sole es name child ∧ (value name stands get).denotes child a)
    (h' : ∃ child, Sole es name child ∧ (value name stands get).denotes child a') :
    get a = get a' := by
  obtain ⟨child, hsole, e, rfl, hv⟩ := h
  obtain ⟨child', hsole', e', rfl, hv'⟩ := h'
  obtain rfl := Option.some.inj (hsole.unique hsole')
  exact hstands e.text _ _ hv hv'

theorem optional_unique {get : α → Option β} (hstands : ∀ s v v', stands s v → stands s v' → v = v')
    (h : ∃ child, Sole es name child ∧ (optional name stands get).denotes child a)
    (h' : ∃ child, Sole es name child ∧ (optional name stands get).denotes child a') :
    get a = get a' := by
  obtain ⟨child, hsole, hdenotes⟩ := h
  obtain ⟨child', hsole', hdenotes'⟩ := h'
  obtain rfl := hsole.unique hsole'
  rcases hdenotes with ⟨hnone, hget⟩ | ⟨e, v, hsome, hget, hv⟩
  · rcases hdenotes' with ⟨-, hget'⟩ | ⟨e', v', hsome', -, -⟩
    · rw [hget, hget']
    · cases hnone.symm.trans hsome'
  · rcases hdenotes' with ⟨hnone', -⟩ | ⟨e', v', hsome', hget', hv'⟩
    · cases hnone'.symm.trans hsome
    · obtain rfl := Option.some.inj (hsome.symm.trans hsome')
      rw [hget, hget', hstands e.text v v' hv hv']

theorem list_unique {get : α → List β}
    (hslots : ∀ es b b', Denotes slots es b → Denotes slots es b' → b = b')
    (h : ∃ child, Sole es name child ∧ (list name item slots get).denotes child a)
    (h' : ∃ child, Sole es name child ∧ (list name item slots get).denotes child a') :
    get a = get a' := by
  obtain ⟨child, hsole, e, rfl, hall⟩ := h
  obtain ⟨child', hsole', e', rfl, hall'⟩ := h'
  obtain rfl := Option.some.inj (hsole.unique hsole')
  have hunique : Relator.RightUnique (fun (c : Element) b => Denotes slots c.children b) := by
    intro c b b' hb hb'
    exact hslots c.children b b' hb hb'
  exact hunique.forall₂ hall hall'

end Unique

end Slot

/-! ## Values -/

/-- The text stands for the text that it is. -/
def standsForText (s v : String) : Prop :=
  v = s

def standsForLong (s : String) (v : Int64) : Prop :=
  Text.IsInteger s v.toInt

def standsForInt (s : String) (v : Int32) : Prop :=
  Text.IsInteger s v.toInt

theorem standsForText_unique (s v v' : String) (h : standsForText s v) (h' : standsForText s v') :
    v = v' :=
  Eq.trans h (Eq.symm h')

theorem standsForLong_unique (s : String) (v v' : Int64) (h : standsForLong s v)
    (h' : standsForLong s v') : v = v' :=
  Int64.toInt_inj.mp (h.unique h')

theorem standsForInt_unique (s : String) (v v' : Int32) (h : standsForInt s v)
    (h' : standsForInt s v') : v = v' :=
  Int32.toInt_inj.mp (h.unique h')

theorem readInt64_of_stands {e : Element} {v : Int64} (h : standsForLong e.text v) :
    readInt64 e = .ok v := by
  obtain ⟨v', hread, hv⟩ :=
    Text.int64?_of_isInteger h (Int64.minValue_le_toInt v) (Int64.toInt_le v)
  obtain rfl := Int64.toInt_inj.mp hv
  rw [readInt64, readValue, hread]

theorem readInt32_of_stands {e : Element} {v : Int32} (h : standsForInt e.text v) :
    readInt32 e = .ok v := by
  obtain ⟨v', hread, hv⟩ :=
    Text.int32?_of_isInteger h (Int32.minValue_le_toInt v) (Int32.toInt_le v)
  obtain rfl := Int32.toInt_inj.mp hv
  rw [readInt32, readValue, hread]

theorem readTruth_of_stands {e : Element} {t : Bool} (h : Text.IsTruth e.text t) :
    readTruth e = .ok t := by
  rw [readTruth, readValue, Text.truth?_of_isTruth h]

theorem map_eq_ok_iff {ε α β : Type} {x : Except ε α} {f : α → β} {b : β} :
    x.map f = .ok b ↔ ∃ a, x = .ok a ∧ f a = b := by
  cases x with
  | error e => exact ⟨nofun, fun ⟨_, h, _⟩ => nomatch h⟩
  | ok a => exact ⟨fun h => ⟨a, rfl, Except.ok.inj h⟩, fun ⟨_, h, hb⟩ => Except.ok.inj h ▸ hb ▸ rfl⟩

/-! ## Variants -/

/-- The children of a variant. -/
def mediaSlots : List (Slot Media) :=
  [.value "url" standsForText Media.url, .value "data_size" standsForLong Media.dataSize,
    .value "quality" standsForText Media.quality, .value "extension" standsForText Media.extension,
    .value "type" standsForText Media.kind, .optional "duration" standsForInt Media.duration]

namespace Media

/-- What a child of some name can change. -/
inductive Changes : String → Media → Media → Prop
  | url {m : Media} {v : String} : Changes "url" m { m with url := v }
  | dataSize {m : Media} {v : Int64} : Changes "data_size" m { m with dataSize := v }
  | quality {m : Media} {v : String} : Changes "quality" m { m with quality := v }
  | extension {m : Media} {v : String} : Changes "extension" m { m with extension := v }
  | kind {m : Media} {v : String} : Changes "type" m { m with kind := v }
  | duration {m : Media} {v : Int32} : Changes "duration" m { m with duration := some v }
  | nothing {name : String} {m : Media} : Changes name m m

/-- A field is only changed by a child of its name. -/
structure Keeps (name : String) (m m' : Media) : Prop where
  url : name ≠ "url" → m'.url = m.url
  dataSize : name ≠ "data_size" → m'.dataSize = m.dataSize
  quality : name ≠ "quality" → m'.quality = m.quality
  extension : name ≠ "extension" → m'.extension = m.extension
  kind : name ≠ "type" → m'.kind = m.kind
  duration : name ≠ "duration" → m'.duration = m.duration

theorem Changes.keeps {name : String} {m m' : Media} (h : Changes name m m') :
    Keeps name m m' := by
  cases h <;> constructor <;> simp

theorem changes_of_readField {m m' : Media} {e : Element}
    (h : readField .external m e = .ok m') : Changes e.name m m' := by
  unfold readField at h
  rcases ite_eq_iff.mp h with ⟨hname, h⟩ | ⟨-, h⟩
  · obtain rfl := Except.ok.inj h
    exact hname ▸ .url
  rcases ite_eq_iff.mp h with ⟨hname, h⟩ | ⟨-, h⟩
  · obtain rfl := Except.ok.inj h
    exact hname ▸ .quality
  rcases ite_eq_iff.mp h with ⟨hname, h⟩ | ⟨-, h⟩
  · obtain rfl := Except.ok.inj h
    exact hname ▸ .extension
  rcases ite_eq_iff.mp h with ⟨hname, h⟩ | ⟨-, h⟩
  · obtain rfl := Except.ok.inj h
    exact hname ▸ .kind
  rcases ite_eq_iff.mp h with ⟨hname, h⟩ | ⟨-, h⟩
  · obtain ⟨v, -, rfl⟩ := map_eq_ok_iff.mp h
    exact hname ▸ .duration
  rcases ite_eq_iff.mp h with ⟨hname, h⟩ | ⟨-, h⟩
  · obtain ⟨v, -, rfl⟩ := map_eq_ok_iff.mp h
    exact hname ▸ .dataSize
  obtain rfl := Except.ok.inj h
  exact .nothing

theorem keeps_of_readField (m : Media) (e : Element) (m' : Media)
    (h : readField .external m e = .ok m') : Keeps e.name m m' :=
  (changes_of_readField h).keeps

theorem readBy_mediaSlots : ∀ slot ∈ mediaSlots, slot.ReadBy (readField .external) {} := by
  simp only [mediaSlots, List.forall_mem_cons]
  refine ⟨Slot.readBy_value ?url fun m e m' hname h => (keeps_of_readField m e m' h).url hname,
    Slot.readBy_value ?dataSize fun m e m' hname h => (keeps_of_readField m e m' h).dataSize hname,
    Slot.readBy_value ?quality fun m e m' hname h => (keeps_of_readField m e m' h).quality hname,
    Slot.readBy_value ?extension fun m e m' hname h =>
      (keeps_of_readField m e m' h).extension hname,
    Slot.readBy_value ?kind fun m e m' hname h => (keeps_of_readField m e m' h).kind hname,
    Slot.readBy_optional rfl ?duration fun m e m' hname h =>
      (keeps_of_readField m e m' h).duration hname,
    fun slot hslot => nomatch hslot⟩
  case dataSize =>
    intro m e v hname hstands
    refine ⟨{ m with dataSize := v }, ?_, hstands⟩
    simp [readField, hname, FieldNames.external, readInt64_of_stands hstands, Except.map]
  case duration =>
    intro m e v hname hstands
    refine ⟨{ m with duration := some v }, v, ?_, rfl, hstands⟩
    simp [readField, hname, readInt32_of_stands hstands, Except.map]
  -- What is left are the texts.
  all_goals
    intro m e v hname hstands
    simp [readField, hname, standsForText]

/-- A variant with fitting children in any order is read. -/
theorem ofElement_of_meets {e : Element} (h : Meets mediaSlots e.children) :
    ∃ m, ofElement .external e = .ok m ∧ Denotes mediaSlots e.children m := by
  refine foldlM_of_meets readBy_mediaSlots ?_ h
  intro e hnames m
  simp only [mediaSlots, List.forall_mem_cons, Slot.value, Slot.optional] at hnames
  obtain ⟨hurl, hdataSize, hquality, hextension, hkind, hduration, -⟩ := hnames
  refine ⟨m, ?_⟩
  simp [readField, FieldNames.external, hurl, hdataSize, hquality, hextension, hkind, hduration]

/-- The children say all that there is to know of a variant. -/
theorem denotes_unique (es : List Element) (m m' : Media) (h : Denotes mediaSlots es m)
    (h' : Denotes mediaSlots es m') : m = m' := by
  unfold Denotes mediaSlots at h h'
  simp only [List.forall_mem_cons] at h h'
  obtain ⟨hurl, hdataSize, hquality, hextension, hkind, hduration, -⟩ := h
  obtain ⟨hurl', hdataSize', hquality', hextension', hkind', hduration', -⟩ := h'
  cases m
  cases m'
  congr 1
  · exact Slot.value_unique standsForText_unique hurl hurl'
  · exact Slot.value_unique standsForLong_unique hdataSize hdataSize'
  · exact Slot.value_unique standsForText_unique hquality hquality'
  · exact Slot.value_unique standsForText_unique hextension hextension'
  · exact Slot.value_unique standsForText_unique hkind hkind'
  · exact Slot.optional_unique standsForInt_unique hduration hduration'

end Media

/-! ## Records -/

/-- The children of a record. -/
def itemSlots : List (Slot Record) :=
  [.value "url" standsForText Record.url, .value "source" standsForText Record.source,
    .value "id" standsForLong Record.id, .value "unique_id" standsForText Record.uniqueId,
    .value "author" standsForText Record.author, .value "title" standsForText Record.title,
    .value "thumbnail" standsForText Record.thumbnail,
    .value "duration" standsForInt Record.duration,
    .list "medias" "media" mediaSlots Record.medias, .value "type" standsForText Record.kind,
    .value "error" Text.IsTruth Record.error, .value "time_end" standsForInt Record.timeEnd]

namespace Record

/-- What a child of some name can change. -/
inductive Changes : String → Record → Record → Prop
  | url {r : Record} {v : String} : Changes "url" r { r with url := v }
  | source {r : Record} {v : String} : Changes "source" r { r with source := v }
  | id {r : Record} {v : Int64} : Changes "id" r { r with id := v }
  | uniqueId {r : Record} {v : String} : Changes "unique_id" r { r with uniqueId := v }
  | author {r : Record} {v : String} : Changes "author" r { r with author := v }
  | title {r : Record} {v : String} : Changes "title" r { r with title := v }
  | thumbnail {r : Record} {v : String} : Changes "thumbnail" r { r with thumbnail := v }
  | duration {r : Record} {v : Int32} : Changes "duration" r { r with duration := v }
  | medias {r : Record} {v : List Media} : Changes "medias" r { r with medias := v }
  | kind {r : Record} {v : String} : Changes "type" r { r with kind := v }
  | error {r : Record} {v : Bool} : Changes "error" r { r with error := v }
  | timeEnd {r : Record} {v : Int32} : Changes "time_end" r { r with timeEnd := v }
  | nothing {name : String} {r : Record} : Changes name r r

/-- A field is only changed by a child of its name. -/
structure Keeps (name : String) (r r' : Record) : Prop where
  url : name ≠ "url" → r'.url = r.url
  source : name ≠ "source" → r'.source = r.source
  id : name ≠ "id" → r'.id = r.id
  uniqueId : name ≠ "unique_id" → r'.uniqueId = r.uniqueId
  author : name ≠ "author" → r'.author = r.author
  title : name ≠ "title" → r'.title = r.title
  thumbnail : name ≠ "thumbnail" → r'.thumbnail = r.thumbnail
  duration : name ≠ "duration" → r'.duration = r.duration
  medias : name ≠ "medias" → r'.medias = r.medias
  kind : name ≠ "type" → r'.kind = r.kind
  error : name ≠ "error" → r'.error = r.error
  timeEnd : name ≠ "time_end" → r'.timeEnd = r.timeEnd

theorem Changes.keeps {name : String} {r r' : Record} (h : Changes name r r') :
    Keeps name r r' := by
  cases h <;> constructor <;> simp

theorem changes_of_readField {r r' : Record} {e : Element}
    (h : readField .external r e = .ok r') : Changes e.name r r' := by
  unfold readField at h
  rcases ite_eq_iff.mp h with ⟨hname, h⟩ | ⟨-, h⟩
  · obtain rfl := Except.ok.inj h
    exact hname ▸ .url
  rcases ite_eq_iff.mp h with ⟨hname, h⟩ | ⟨-, h⟩
  · obtain rfl := Except.ok.inj h
    exact hname ▸ .source
  rcases ite_eq_iff.mp h with ⟨hname, h⟩ | ⟨-, h⟩
  · obtain ⟨v, -, rfl⟩ := map_eq_ok_iff.mp h
    exact hname ▸ .id
  rcases ite_eq_iff.mp h with ⟨hname, h⟩ | ⟨-, h⟩
  · obtain rfl := Except.ok.inj h
    exact hname ▸ .author
  rcases ite_eq_iff.mp h with ⟨hname, h⟩ | ⟨-, h⟩
  · obtain rfl := Except.ok.inj h
    exact hname ▸ .title
  rcases ite_eq_iff.mp h with ⟨hname, h⟩ | ⟨-, h⟩
  · obtain rfl := Except.ok.inj h
    exact hname ▸ .thumbnail
  rcases ite_eq_iff.mp h with ⟨hname, h⟩ | ⟨-, h⟩
  · obtain ⟨v, -, rfl⟩ := map_eq_ok_iff.mp h
    exact hname ▸ .duration
  rcases ite_eq_iff.mp h with ⟨hname, h⟩ | ⟨-, h⟩
  · obtain rfl := Except.ok.inj h
    exact hname ▸ .kind
  rcases ite_eq_iff.mp h with ⟨hname, h⟩ | ⟨-, h⟩
  · obtain ⟨v, -, rfl⟩ := map_eq_ok_iff.mp h
    exact hname ▸ .error
  rcases ite_eq_iff.mp h with ⟨hname, h⟩ | ⟨-, h⟩
  · obtain ⟨v, -, rfl⟩ := map_eq_ok_iff.mp h
    exact hname ▸ .medias
  rcases ite_eq_iff.mp h with ⟨hname, h⟩ | ⟨-, h⟩
  · obtain rfl := Except.ok.inj h
    exact hname ▸ .uniqueId
  rcases ite_eq_iff.mp h with ⟨hname, h⟩ | ⟨-, h⟩
  · obtain ⟨v, -, rfl⟩ := map_eq_ok_iff.mp h
    exact hname ▸ .timeEnd
  obtain rfl := Except.ok.inj h
  exact .nothing

theorem keeps_of_readField (r : Record) (e : Element) (r' : Record)
    (h : readField .external r e = .ok r') : Keeps e.name r r' :=
  (changes_of_readField h).keeps

/-- Fitting variants are read in order. -/
theorem mapM_of_meets {es : List Element} (h : ∀ c ∈ es, c.name = "media" ∧
      Meets mediaSlots c.children) :
    ∃ ms, (es.filter (fun c => c.name = "media")).mapM (Media.ofElement .external) = .ok ms ∧
      List.Forall₂ (fun c m => Denotes mediaSlots c.children m) es ms := by
  induction es with
  | nil => exact ⟨[], rfl, .nil⟩
  | cons e es ih =>
      obtain ⟨⟨hname, hmeets⟩, hrest⟩ := List.forall_mem_cons.mp h
      obtain ⟨m, hread, hdenotes⟩ := Media.ofElement_of_meets hmeets
      obtain ⟨ms, hreads, hall⟩ := ih hrest
      refine ⟨m :: ms, ?_, .cons hdenotes hall⟩
      rw [List.filter_cons_of_pos (by simpa using hname), List.mapM_cons, hread, hreads]
      rfl

theorem readBy_itemSlots : ∀ slot ∈ itemSlots, slot.ReadBy (readField .external) {} := by
  simp only [itemSlots, List.forall_mem_cons]
  refine ⟨Slot.readBy_value ?url fun r e r' hname h => (keeps_of_readField r e r' h).url hname,
    Slot.readBy_value ?source fun r e r' hname h => (keeps_of_readField r e r' h).source hname,
    Slot.readBy_value ?id fun r e r' hname h => (keeps_of_readField r e r' h).id hname,
    Slot.readBy_value ?uniqueId fun r e r' hname h => (keeps_of_readField r e r' h).uniqueId hname,
    Slot.readBy_value ?author fun r e r' hname h => (keeps_of_readField r e r' h).author hname,
    Slot.readBy_value ?title fun r e r' hname h => (keeps_of_readField r e r' h).title hname,
    Slot.readBy_value ?thumbnail fun r e r' hname h =>
      (keeps_of_readField r e r' h).thumbnail hname,
    Slot.readBy_value ?duration fun r e r' hname h => (keeps_of_readField r e r' h).duration hname,
    Slot.readBy_list ?medias fun r e r' hname h => (keeps_of_readField r e r' h).medias hname,
    Slot.readBy_value ?kind fun r e r' hname h => (keeps_of_readField r e r' h).kind hname,
    Slot.readBy_value ?error fun r e r' hname h => (keeps_of_readField r e r' h).error hname,
    Slot.readBy_value ?timeEnd fun r e r' hname h => (keeps_of_readField r e r' h).timeEnd hname,
    fun slot hslot => nomatch hslot⟩
  case id =>
    intro r e v hname hstands
    refine ⟨{ r with id := v }, ?_, hstands⟩
    simp [readField, hname, readInt64_of_stands hstands, Except.map]
  case duration =>
    intro r e v hname hstands
    refine ⟨{ r with duration := v }, ?_, hstands⟩
    simp [readField, hname, readInt32_of_stands hstands, Except.map]
  case timeEnd =>
    intro r e v hname hstands
    refine ⟨{ r with timeEnd := v }, ?_, hstands⟩
    simp [readField, hname, FieldNames.external, readInt32_of_stands hstands, Except.map]
  case error =>
    intro r e v hname hstands
    refine ⟨{ r with error := v }, ?_, hstands⟩
    simp [readField, hname, readTruth_of_stands hstands, Except.map]
  case medias =>
    intro r e hname hchildren
    obtain ⟨ms, hread, hdenotes⟩ := mapM_of_meets hchildren
    refine ⟨{ r with medias := ms }, ?_, hdenotes⟩
    simp [readField, hname, readMedias, hread, Except.map]
  -- What is left are the texts.
  all_goals
    intro r e v hname hstands
    simp [readField, hname, FieldNames.external, standsForText]

theorem ofElement_eq {e : Element} (hname : e.name = "item") (huri : e.uri = none) :
    ofElement e = readFields .external e := by
  simp [ofElement, hname, huri]

/-- An item with fitting children in any order is read, with the values that they stand for. -/
theorem ofElement_of_meets {e : Element} (hname : e.name = "item") (huri : e.uri = none)
    (h : Meets itemSlots e.children) :
    ∃ r, ofElement e = .ok r ∧ Denotes itemSlots e.children r := by
  rw [ofElement_eq hname huri, readFields]
  refine foldlM_of_meets readBy_itemSlots ?_ h
  intro e hnames r
  simp only [itemSlots, List.forall_mem_cons, Slot.value, Slot.list] at hnames
  obtain ⟨hurl, hsource, hid, huniqueId, hauthor, htitle, hthumbnail, hduration, hmedias, hkind,
    herror, htimeEnd, -⟩ := hnames
  refine ⟨r, ?_⟩
  simp [readField, FieldNames.external, hurl, hsource, hid, huniqueId, hauthor, htitle, hthumbnail,
    hduration, hmedias, hkind, herror, htimeEnd]

/-- The children say all that there is to know of a record. -/
theorem denotes_unique (es : List Element) (r r' : Record) (h : Denotes itemSlots es r)
    (h' : Denotes itemSlots es r') : r = r' := by
  unfold Denotes itemSlots at h h'
  simp only [List.forall_mem_cons] at h h'
  obtain ⟨hurl, hsource, hid, huniqueId, hauthor, htitle, hthumbnail, hduration, hmedias, hkind,
    herror, htimeEnd, -⟩ := h
  obtain ⟨hurl', hsource', hid', huniqueId', hauthor', htitle', hthumbnail', hduration', hmedias',
    hkind', herror', htimeEnd', -⟩ := h'
  cases r
  cases r'
  congr 1
  · exact Slot.value_unique standsForLong_unique hid hid'
  · exact Slot.value_unique standsForText_unique hurl hurl'
  · exact Slot.value_unique standsForText_unique hsource hsource'
  · exact Slot.value_unique standsForText_unique huniqueId huniqueId'
  · exact Slot.value_unique standsForText_unique hauthor hauthor'
  · exact Slot.value_unique standsForText_unique htitle htitle'
  · exact Slot.value_unique standsForText_unique hthumbnail hthumbnail'
  · exact Slot.value_unique standsForInt_unique hduration hduration'
  · exact Slot.list_unique Media.denotes_unique hmedias hmedias'
  · exact Slot.value_unique standsForText_unique hkind hkind'
  · exact Slot.value_unique Text.isTruth_unique herror herror'
  · exact Slot.value_unique standsForInt_unique htimeEnd htimeEnd'

end Record

end VideoCatalog
