import Mathlib.Data.List.Flatten
import Mathlib.Tactic.SplitIfs
import VideoCatalog.Proofs.Record.Slots

/-!
# What can be wrong with an item

Some elements of an item have to hold a value of some kind: of its children the numbers and the
truth value, and of the children of its variants the size and the duration. `typed` lists them in
document order (`typed_sublist`); all other elements can hold anything.

The reader goes through the children with a record in its hand, but whether it fails at a child, and
how, has nothing to do with the record (`fault?_readField` is the step, `fault?_foldlM` the run). So
an item is read exactly if all of these elements hold their values (`exists_ofElement_iff`), and
otherwise the first one that does not is named, with its line and its text as it is written
(`ofElement_eq_error_iff`). It does not help that a later element of the same name would have been
taken instead.
-/

namespace VideoCatalog

open Xml (Element)

/-! ## Document order -/

namespace Xml.Element

mutual
/-- The element and all below it, in document order. -/
def inOrder : Element → List Element
  | .mk tag text children => .mk tag text children :: allInOrder children

/-- The elements and all below them, in document order. -/
def allInOrder : List Element → List Element
  | [] => []
  | e :: es => inOrder e ++ allInOrder es
end

theorem allInOrder_eq_flatMap (es : List Element) : allInOrder es = es.flatMap inOrder := by
  induction es with
  | nil => rfl
  | cons e es ih => rw [allInOrder, ih, List.flatMap_cons]

theorem inOrder_eq (e : Element) : e.inOrder = e :: e.children.flatMap inOrder := by
  cases e
  rw [inOrder, allInOrder_eq_flatMap, children]

end Xml.Element

/-- The children of this name, in order. -/
def named (es : List Element) (name : String) : List Element :=
  es.filter (fun e => e.name = name)

theorem mem_named {es : List Element} {name : String} {e : Element} :
    e ∈ named es name ↔ e ∈ es ∧ e.name = name := by
  simp [named]

/-! ## Values of one element -/

/-- The trimmed text of the element is a number of 64 bits. -/
def HoldsLong (e : Element) (v : Int64) : Prop :=
  Text.Numeral (Text.trim e.text).toList v.toInt

/-- The trimmed text of the element is a number of 32 bits. -/
def HoldsInt (e : Element) (v : Int32) : Prop :=
  Text.Numeral (Text.trim e.text).toList v.toInt

/-- The trimmed text of the element is one of the words for a truth value. -/
def HoldsTruth (e : Element) (t : Bool) : Prop :=
  (Text.trim e.text).toList ∈ Text.truthWords t

/-- The element holds a value of the kind. -/
def ValueKind.Fits : ValueKind → Element → Prop
  | .int64, e => ∃ v, HoldsLong e v
  | .int32, e => ∃ v, HoldsInt e v
  | .truth, e => ∃ t, HoldsTruth e t

theorem readValue_eq_ok_iff {α : Type} {kind : ValueKind} {value? : String → Option α} {e : Element}
    {a : α} : readValue kind value? e = .ok a ↔ value? (Text.trim e.text) = some a := by
  unfold readValue
  split
  · next a' h => rw [h, Except.ok.injEq, Option.some.injEq]
  · next h =>
    rw [h]
    exact ⟨nofun, nofun⟩

theorem readInt64_eq_ok_iff {e : Element} {v : Int64} : readInt64 e = .ok v ↔ HoldsLong e v :=
  readValue_eq_ok_iff.trans Text.int64?_eq_some_iff

theorem readInt32_eq_ok_iff {e : Element} {v : Int32} : readInt32 e = .ok v ↔ HoldsInt e v :=
  readValue_eq_ok_iff.trans Text.int32?_eq_some_iff

theorem readTruth_eq_ok_iff {e : Element} {t : Bool} : readTruth e = .ok t ↔ HoldsTruth e t :=
  readValue_eq_ok_iff.trans Text.truth?_eq_some_iff

/-! ## Faults -/

/-- What went wrong, if something did. -/
def fault? {α : Type} : Except ReadError α → Option ReadError
  | .ok _ => none
  | .error e => some e

/-- What is said of an element that does not hold a value of the kind. -/
def faultOf (x : Element × ValueKind) : ReadError :=
  .invalidValue x.1.name x.1.text x.2 x.1.line

/-- What is wrong with an element that has to hold a value of the kind, if something is. -/
def valueFault? : Element × ValueKind → Option ReadError
  | (e, .int64) => fault? (readInt64 e)
  | (e, .int32) => fault? (readInt32 e)
  | (e, .truth) => fault? (readTruth e)

section Faults

variable {α β : Type} {es : List Element}

theorem fault?_eq_none_iff {x : Except ReadError α} : fault? x = none ↔ ∃ a, x = .ok a := by
  cases x with
  | error e => exact ⟨nofun, fun ⟨_, h⟩ => by cases h⟩
  | ok a => exact ⟨fun _ => ⟨a, rfl⟩, fun _ => rfl⟩

theorem fault?_eq_some_iff {x : Except ReadError α} {err : ReadError} :
    fault? x = some err ↔ x = .error err := by
  cases x with
  | error e => rw [fault?, Option.some.injEq, Except.error.injEq]
  | ok a => exact ⟨nofun, nofun⟩

@[simp]
theorem fault?_ok {a : α} : fault? (.ok a) = none :=
  rfl

@[simp]
theorem fault?_map {x : Except ReadError α} {f : α → β} : fault? (x.map f) = fault? x := by
  cases x <;> rfl

theorem fault?_ite {p : Prop} [Decidable p] {x y : Except ReadError α} {o : Option ReadError}
    (hx : p → fault? x = o) (hy : ¬p → fault? y = o) : fault? (if p then x else y) = o := by
  split
  · next h => exact hx h
  · next h => exact hy h

/-- The fault of a value is that there is none of its kind. -/
theorem fault?_readValue {kind : ValueKind} {value? : String → Option α} {e : Element}
    {holds : α → Prop} (h : ∀ a, readValue kind value? e = .ok a ↔ holds a) :
    fault? (readValue kind value? e) = none ∧ (∃ a, holds a) ∨
      fault? (readValue kind value? e) = some (faultOf (e, kind)) ∧ ¬∃ a, holds a := by
  cases hvalue : value? (Text.trim e.text) with
  | some a =>
      have hread : readValue kind value? e = .ok a := readValue_eq_ok_iff.mpr hvalue
      exact .inl ⟨by rw [hread]; rfl, a, (h a).mp hread⟩
  | none =>
      have hread : readValue kind value? e = .error (faultOf (e, kind)) := by
        rw [readValue, hvalue]
        rfl
      refine .inr ⟨by rw [hread]; rfl, ?_⟩
      rintro ⟨a, ha⟩
      cases hread.symm.trans ((h a).mpr ha)

theorem valueFault?_cases (x : Element × ValueKind) :
    valueFault? x = none ∧ x.2.Fits x.1 ∨ valueFault? x = some (faultOf x) ∧ ¬x.2.Fits x.1 := by
  obtain ⟨e, kind⟩ := x
  cases kind with
  | int64 =>
      unfold valueFault? ValueKind.Fits readInt64
      exact fault?_readValue fun _ => readInt64_eq_ok_iff
  | int32 =>
      unfold valueFault? ValueKind.Fits readInt32
      exact fault?_readValue fun _ => readInt32_eq_ok_iff
  | truth =>
      unfold valueFault? ValueKind.Fits readTruth
      exact fault?_readValue fun _ => readTruth_eq_ok_iff

theorem valueFault?_eq_none_iff {x : Element × ValueKind} :
    valueFault? x = none ↔ x.2.Fits x.1 := by
  rcases valueFault?_cases x with ⟨h, hfits⟩ | ⟨h, hfits⟩
  · exact ⟨fun _ => hfits, fun _ => h⟩
  · rw [h]
    exact ⟨nofun, fun h' => absurd h' hfits⟩

theorem valueFault?_eq_some_iff {x : Element × ValueKind} {err : ReadError} :
    valueFault? x = some err ↔ ¬x.2.Fits x.1 ∧ err = faultOf x := by
  rcases valueFault?_cases x with ⟨h, hfits⟩ | ⟨h, hfits⟩
  · rw [h]
    exact ⟨nofun, fun h' => absurd hfits h'.1⟩
  · rw [h, Option.some.injEq]
    exact ⟨fun heq => ⟨hfits, heq.symm⟩, fun h' => h'.2.symm⟩

/-- If the fault at each element is a matter of the element alone, a run over them has the first. -/
theorem fault?_foldlM {read : α → Element → Except ReadError α} {f : Element → Option ReadError}
    (h : ∀ a e, fault? (read a e) = f e) (a : α) :
    fault? (es.foldlM read a) = es.findSome? f := by
  induction es generalizing a with
  | nil => rfl
  | cons e es ih =>
      have he := h a e
      rw [List.foldlM_cons, List.findSome?_cons, ← he]
      cases read a e with
      | error err => rfl
      | ok a' => exact ih a'

theorem fault?_mapM (read : Element → Except ReadError α) :
    fault? (es.mapM read) = es.findSome? (fun e => fault? (read e)) := by
  induction es with
  | nil => rfl
  | cons e es ih =>
      rw [List.mapM_cons, List.findSome?_cons, ← ih]
      cases read e with
      | error err => rfl
      | ok a => cases es.mapM read <;> rfl

theorem findSome?_flatMap {γ : Type} {f : β → Option γ} {g : α → List β} {as : List α} :
    (as.flatMap g).findSome? f = as.findSome? (fun a => (g a).findSome? f) := by
  induction as with
  | nil => rfl
  | cons a as ih =>
      rw [List.flatMap_cons, List.findSome?_append, ih, List.findSome?_cons]
      cases (g a).findSome? f <;> rfl

end Faults

/-- The element with the kind of value that it has to hold by its name, if it has to hold one. -/
def typedBy (kindOf : String → Option ValueKind) (e : Element) : List (Element × ValueKind) :=
  ((kindOf e.name).map (fun kind => (e, kind))).toList

theorem typedBy_sublist (kindOf : String → Option ValueKind) (e : Element) :
    ((typedBy kindOf e).map Prod.fst).Sublist e.inOrder := by
  rw [Element.inOrder_eq, typedBy]
  cases kindOf e.name with
  | none => exact List.nil_sublist _
  | some kind => exact (List.nil_sublist _).cons_cons e

theorem mem_typedBy {kindOf : String → Option ValueKind} {e : Element} {x : Element × ValueKind} :
    x ∈ typedBy kindOf e ↔ x.1 = e ∧ kindOf e.name = some x.2 := by
  obtain ⟨e', kind⟩ := x
  unfold typedBy
  cases kindOf e.name with
  | none => simp
  | some kind' => simp [eq_comm]

/-! ## Variants -/

namespace Media

/-- The kind of value that a child of this name has to hold. -/
def kindOf? (name : String) : Option ValueKind :=
  if name = "duration" then some .int32
  else if name = "data_size" then some .int64
  else none

/-- The elements of a variant that have to hold a value, with its kind, in document order. -/
def typed (e : Element) : List (Element × ValueKind) :=
  e.children.flatMap (typedBy kindOf?)

/-- All elements of a variant hold the values that they have to. -/
structure IsSound (e : Element) : Prop where
  dataSize : ∀ c ∈ named e.children "data_size", ∃ v, HoldsLong c v
  duration : ∀ c ∈ named e.children "duration", ∃ v, HoldsInt c v

theorem mem_typed {e : Element} {x : Element × ValueKind} :
    x ∈ typed e ↔ x.1 ∈ e.children ∧ kindOf? x.1.name = some x.2 := by
  rw [typed, List.mem_flatMap]
  constructor
  · rintro ⟨c, hc, hx⟩
    obtain ⟨rfl, hkind⟩ := mem_typedBy.mp hx
    exact ⟨hc, hkind⟩
  · rintro ⟨hc, hkind⟩
    exact ⟨x.1, hc, mem_typedBy.mpr ⟨rfl, hkind⟩⟩

theorem typed_sublist (e : Element) : ((typed e).map Prod.fst).Sublist e.inOrder := by
  rw [typed, List.map_flatMap, Element.inOrder_eq]
  exact (List.Sublist.flatMap_right _ fun c _ => typedBy_sublist kindOf? c).cons e

theorem isSound_iff {e : Element} : IsSound e ↔ ∀ x ∈ typed e, x.2.Fits x.1 := by
  constructor
  · rintro ⟨hdataSize, hduration⟩ ⟨c, kind⟩ hx
    obtain ⟨hc, hkind⟩ := mem_typed.mp hx
    unfold kindOf? at hkind
    split at hkind
    · next hname =>
      obtain rfl := Option.some.inj hkind
      exact hduration c (mem_named.mpr ⟨hc, hname⟩)
    · split at hkind
      · next hname =>
        obtain rfl := Option.some.inj hkind
        exact hdataSize c (mem_named.mpr ⟨hc, hname⟩)
      · cases hkind
  · intro h
    refine ⟨fun c hc => ?_, fun c hc => ?_⟩
    · obtain ⟨hc, hname⟩ := mem_named.mp hc
      exact h (c, .int64) (mem_typed.mpr ⟨hc, by simp [hname, kindOf?]⟩)
    · obtain ⟨hc, hname⟩ := mem_named.mp hc
      exact h (c, .int32) (mem_typed.mpr ⟨hc, by simp [hname, kindOf?]⟩)

/-- One child of a variant is at fault if it does not hold the value that it has to. -/
theorem fault?_readField (m : Media) (e : Element) :
    fault? (readField .external m e) = (typedBy kindOf? e).findSome? valueFault? := by
  refine fault?_ite ?_ fun _ => fault?_ite ?_ fun _ => fault?_ite ?_ fun _ => fault?_ite ?_ fun _ =>
    fault?_ite ?duration fun hduration => fault?_ite ?dataSize fun hdataSize => ?others
  case duration | dataSize =>
    intro hname
    simp [typedBy, kindOf?, hname, valueFault?, FieldNames.external]
  case others =>
    simp [typedBy, kindOf?, hduration, show ¬e.name = "data_size" from hdataSize]
  -- What is left are the texts.
  all_goals
    intro hname
    simp [typedBy, kindOf?, hname]

theorem fault?_ofElement (e : Element) :
    fault? (ofElement .external e) = (typed e).findSome? valueFault? := by
  rw [ofElement, fault?_foldlM fault?_readField, typed, findSome?_flatMap]

end Media

/-! ## Records -/

namespace Record

/-- The kind of value that a child of this name has to hold. -/
def kindOf? (name : String) : Option ValueKind :=
  if name = "id" then some .int64
  else if name = "duration" then some .int32
  else if name = "error" then some .truth
  else if name = "time_end" then some .int32
  else none

/-- The elements at and below one child that have to hold a value. -/
def typedChild (c : Element) : List (Element × ValueKind) :=
  if c.name = "medias" then (named c.children "media").flatMap Media.typed
  else typedBy kindOf? c

/-- The elements of an item that have to hold a value, with its kind, in document order. -/
def typed (e : Element) : List (Element × ValueKind) :=
  e.children.flatMap typedChild

/-- All elements of an item hold the values that they have to. -/
structure IsSound (e : Element) : Prop where
  id : ∀ c ∈ named e.children "id", ∃ v, HoldsLong c v
  duration : ∀ c ∈ named e.children "duration", ∃ v, HoldsInt c v
  timeEnd : ∀ c ∈ named e.children "time_end", ∃ v, HoldsInt c v
  error : ∀ c ∈ named e.children "error", ∃ t, HoldsTruth c t
  medias : ∀ c ∈ named e.children "medias", ∀ m ∈ named c.children "media", Media.IsSound m

theorem mem_typed {e : Element} {x : Element × ValueKind} :
    x ∈ typed e ↔ (x.1 ∈ e.children ∧ kindOf? x.1.name = some x.2) ∨
      ∃ c ∈ named e.children "medias", ∃ m ∈ named c.children "media", x ∈ Media.typed m := by
  rw [typed, List.mem_flatMap]
  constructor
  · rintro ⟨c, hc, hx⟩
    unfold typedChild at hx
    split at hx
    · next hname => exact .inr ⟨c, mem_named.mpr ⟨hc, hname⟩, List.mem_flatMap.mp hx⟩
    · obtain ⟨rfl, hkind⟩ := mem_typedBy.mp hx
      exact .inl ⟨hc, hkind⟩
  · rintro (⟨hc, hkind⟩ | ⟨c, hc, hx⟩)
    · refine ⟨x.1, hc, ?_⟩
      have hname : x.1.name ≠ "medias" := by
        intro hname
        simp [hname, kindOf?] at hkind
      rw [typedChild, if_neg hname]
      exact mem_typedBy.mpr ⟨rfl, hkind⟩
    · obtain ⟨hc, hname⟩ := mem_named.mp hc
      refine ⟨c, hc, ?_⟩
      rw [typedChild, if_pos hname]
      exact List.mem_flatMap.mpr hx

theorem typed_sublist (e : Element) : ((typed e).map Prod.fst).Sublist e.inOrder := by
  have hchild : ∀ c : Element, ((typedChild c).map Prod.fst).Sublist c.inOrder := by
    intro c
    unfold typedChild
    split
    · rw [List.map_flatMap, Element.inOrder_eq]
      have hpicked : ((named c.children "media").flatMap fun m =>
          (Media.typed m).map Prod.fst).Sublist (c.children.flatMap Element.inOrder) :=
        (List.Sublist.flatMap_right _ fun m _ => Media.typed_sublist m).trans
          (List.filter_sublist.flatMap Element.inOrder)
      exact hpicked.cons c
    · exact typedBy_sublist kindOf? c
  rw [typed, List.map_flatMap, Element.inOrder_eq]
  exact (List.Sublist.flatMap_right _ fun c _ => hchild c).cons e

theorem isSound_iff {e : Element} : IsSound e ↔ ∀ x ∈ typed e, x.2.Fits x.1 := by
  constructor
  · rintro h ⟨c, kind⟩ hx
    rcases mem_typed.mp hx with ⟨hc, hkind⟩ | ⟨l, hl, m, hm, hx⟩
    · unfold kindOf? at hkind
      split_ifs at hkind with hid hduration herror htimeEnd
      · obtain rfl := Option.some.inj hkind
        exact h.id c (mem_named.mpr ⟨hc, hid⟩)
      · obtain rfl := Option.some.inj hkind
        exact h.duration c (mem_named.mpr ⟨hc, hduration⟩)
      · obtain rfl := Option.some.inj hkind
        exact h.error c (mem_named.mpr ⟨hc, herror⟩)
      · obtain rfl := Option.some.inj hkind
        exact h.timeEnd c (mem_named.mpr ⟨hc, htimeEnd⟩)
    · exact Media.isSound_iff.mp (h.medias l hl m hm) _ hx
  · intro h
    have hfits : ∀ name kind, kindOf? name = some kind → ∀ c ∈ named e.children name,
        kind.Fits c := by
      intro name kind hkind c hmem
      obtain ⟨hc, rfl⟩ := mem_named.mp hmem
      exact h (c, kind) (mem_typed.mpr (.inl ⟨hc, hkind⟩))
    exact
      { id := hfits "id" .int64 (by decide)
        duration := hfits "duration" .int32 (by decide)
        timeEnd := hfits "time_end" .int32 (by decide)
        error := hfits "error" .truth (by decide)
        medias := fun c hc m hm => Media.isSound_iff.mpr fun x hx =>
          h x (mem_typed.mpr (.inr ⟨c, hc, m, hm, hx⟩)) }

theorem fault?_readMedias (e : Element) :
    fault? (readMedias .external e) =
      ((named e.children "media").flatMap Media.typed).findSome? valueFault? := by
  rw [readMedias, fault?_mapM, findSome?_flatMap]
  exact congrArg (fun f => List.findSome? f _) (funext Media.fault?_ofElement)

/-- One child of an item is at fault if an element there does not hold the value that it has to. -/
theorem fault?_readField (r : Record) (e : Element) :
    fault? (readField .external r e) = (typedChild e).findSome? valueFault? := by
  refine fault?_ite ?_ fun _ => fault?_ite ?_ fun _ => fault?_ite ?id fun hid =>
    fault?_ite ?_ fun _ => fault?_ite ?_ fun _ => fault?_ite ?_ fun _ =>
    fault?_ite ?duration fun hduration => fault?_ite ?_ fun _ => fault?_ite ?error fun herror =>
    fault?_ite ?medias fun hmedias => fault?_ite ?_ fun _ =>
    fault?_ite ?timeEnd fun htimeEnd => ?others
  case id | duration | error | timeEnd =>
    intro hname
    simp [typedChild, typedBy, kindOf?, hname, valueFault?, FieldNames.external]
  case medias =>
    intro hname
    rw [typedChild, if_pos hname, fault?_map, fault?_readMedias]
  case others =>
    simp [typedChild, typedBy, kindOf?, hid, hduration, herror, hmedias,
      show ¬e.name = "time_end" from htimeEnd]
  all_goals
    intro hname
    simp [typedChild, typedBy, kindOf?, hname, FieldNames.external]

theorem fault?_ofElement {e : Element} (hname : e.name = "item") (huri : e.uri = none) :
    fault? (ofElement e) = (typed e).findSome? valueFault? := by
  rw [ofElement_eq hname huri, readFields, fault?_foldlM fault?_readField, typed,
    findSome?_flatMap]

/-- An item is read exactly if all of its elements hold the values that they have to. -/
theorem exists_ofElement_iff {e : Element} (hname : e.name = "item") (huri : e.uri = none) :
    (∃ r, ofElement e = .ok r) ↔ IsSound e := by
  rw [← fault?_eq_none_iff, fault?_ofElement hname huri, List.findSome?_eq_none_iff, isSound_iff]
  exact forall₂_congr fun _ _ => valueFault?_eq_none_iff

/-- Otherwise the first element is named that does not hold its value. -/
theorem ofElement_eq_error_iff {e : Element} (hname : e.name = "item") (huri : e.uri = none)
    {err : ReadError} :
    ofElement e = .error err ↔ ∃ before x after, typed e = before ++ x :: after ∧
      (∀ y ∈ before, y.2.Fits y.1) ∧ ¬x.2.Fits x.1 ∧ err = faultOf x := by
  rw [← fault?_eq_some_iff, fault?_ofElement hname huri, List.findSome?_eq_some_iff]
  constructor
  · rintro ⟨before, x, after, hsplit, hx, hbefore⟩
    obtain ⟨hfits, herr⟩ := valueFault?_eq_some_iff.mp hx
    exact ⟨before, x, after, hsplit,
      fun y hy => valueFault?_eq_none_iff.mp (hbefore y hy), hfits, herr⟩
  · rintro ⟨before, x, after, hsplit, hbefore, hfits, herr⟩
    exact ⟨before, x, after, hsplit, valueFault?_eq_some_iff.mpr ⟨hfits, herr⟩,
      fun y hy => valueFault?_eq_none_iff.mpr (hbefore y hy)⟩

end Record

end VideoCatalog
