import VideoCatalog.Proofs.Record.LastOccurrence
import VideoCatalog.Proofs.Xml.Parsing

/-!
# Order and strangers

What an item is read as depends on its children of each known name, in their order among themselves,
and not on other children. Nor does it depend on lines: of a child that is no list of variants only
the text matters. Items that agree in this (`Record.Agree`) are read as the same record, or both are
not read (`Record.Agree.isSound`, `Record.Agree.gathers`).

In particular it does not matter in which order the children come if every known name comes once at
most, and children of unknown names may be put in anywhere (`Record.Permuted`, `Record.SameKnown`).
`Record.reading_takes_last` puts this together with the last occurrence of each field and the first
fault.
-/

namespace VideoCatalog

open Xml (Element)

/-! ## Lists of children that correspond -/

section Corresponding

variable {R : Element → Element → Prop} {es es' : List Element} {name : String}

theorem forall_mem_of_forall₂ {P : Element → Prop} (h : List.Forall₂ R es es')
    (hR : ∀ c c', R c c' → P c → P c') (hes : ∀ c ∈ es, P c) : ∀ c ∈ es', P c := by
  induction h with
  | nil => exact nofun
  | cons hc _ ih =>
      obtain ⟨hfirst, hrest⟩ := List.forall_mem_cons.mp hes
      exact List.forall_mem_cons.mpr ⟨hR _ _ hc hfirst, ih hrest⟩

theorem forall₂_of_forall₂ {β : Type} {S : Element → β → Prop} {bs : List β}
    (h : List.Forall₂ R es es') (hR : ∀ c c' b, R c c' → S c b → S c' b)
    (hes : List.Forall₂ S es bs) : List.Forall₂ S es' bs := by
  induction h generalizing bs with
  | nil => exact hes
  | cons hc _ ih =>
      cases hes with
      | cons hb hrest => exact .cons (hR _ _ _ hc hb) (ih hrest)

/-- If the children of a name correspond, so do the last ones. -/
theorem TakesLast.of_forall₂ {β : Type} {holds : Element → β → Prop} {default v : β}
    (h : List.Forall₂ R (named es name) (named es' name))
    (hR : ∀ c c', R c c' → holds c v → holds c' v) (hlast : TakesLast es name holds default v) :
    TakesLast es' name holds default v := by
  have hreverse := List.forall₂_reverse_iff.mpr h
  unfold TakesLast lastOf? at hlast ⊢
  rw [← List.head?_reverse] at hlast ⊢
  cases hes : (named es name).reverse with
  | nil =>
      rw [hes] at hreverse hlast
      rw [List.forall₂_nil_left_iff.mp hreverse]
      exact hlast
  | cons c rest =>
      rw [hes] at hreverse hlast
      obtain ⟨c', rest', hc, -, hes'⟩ := List.forall₂_cons_left_iff.mp hreverse
      rw [hes']
      exact hR c c' hc hlast

theorem forall₂_of_map_eq {α β : Type} {f : α → β} {as bs : List α} (h : as.map f = bs.map f) :
    List.Forall₂ (fun a b => f a = f b) as bs := by
  have heq : List.Forall₂ Eq (as.map f) (bs.map f) := by
    rw [List.forall₂_eq_eq_eq, h]
  exact List.forall₂_map_right_iff.mp (List.forall₂_map_left_iff.mp heq)

end Corresponding

/-! ## Lines aside -/

theorem named_map_unlined (es : List Element) (name : String) :
    named (es.map Element.unlined) name = (named es name).map Element.unlined := by
  have hname : (fun e : Element => decide (e.name = name)) ∘ Element.unlined =
      fun e => decide (e.name = name) := by
    funext e
    cases e
    rfl
  rw [named, List.filter_map, hname]
  rfl

/-- The children of a name agree apart from lines. -/
def SameNamed (es es' : List Element) (name : String) : Prop :=
  (named es name).map Element.unlined = (named es' name).map Element.unlined

theorem sameNamed_of_unlined_eq {e e' : Element} (h : e.unlined = e'.unlined) (name : String) :
    SameNamed e.children e'.children name := by
  unfold SameNamed
  rw [← named_map_unlined, ← named_map_unlined, ← Element.children_unlined,
    ← Element.children_unlined, h]

theorem SameNamed.forall₂ {R : Element → Element → Prop} {es es' : List Element} {name : String}
    (h : SameNamed es es' name) (hR : ∀ c c', c.unlined = c'.unlined → R c c') :
    List.Forall₂ R (named es name) (named es' name) :=
  (forall₂_of_map_eq h).imp hR

/-- The two elements have the same text. -/
def SameText (c c' : Element) : Prop :=
  c.text = c'.text

section SameText

variable {c c' : Element}

theorem sameText_of_unlined_eq (c c' : Element) (h : c.unlined = c'.unlined) : SameText c c' :=
  (Element.eqs_of_unlined_eq h).2.1

theorem holdsText_of_sameText {s : String} (h : SameText c c') (hc : HoldsText c s) :
    HoldsText c' s :=
  Eq.trans hc h

theorem holdsLong_of_sameText {v : Int64} (h : SameText c c') (hc : HoldsLong c v) :
    HoldsLong c' v := by
  unfold HoldsLong at hc ⊢
  rwa [← show c.text = c'.text from h]

theorem holdsInt_of_sameText {v : Int32} (h : SameText c c') (hc : HoldsInt c v) :
    HoldsInt c' v := by
  unfold HoldsInt at hc ⊢
  rwa [← show c.text = c'.text from h]

theorem holdsTruth_of_sameText {t : Bool} (h : SameText c c') (hc : HoldsTruth c t) :
    HoldsTruth c' t := by
  unfold HoldsTruth at hc ⊢
  rwa [← show c.text = c'.text from h]

theorem holdsSomeInt_of_sameText {v : Option Int32} (h : SameText c c') (hc : HoldsSomeInt c v) :
    HoldsSomeInt c' v := by
  obtain ⟨n, hv, hn⟩ := hc
  exact ⟨n, hv, holdsInt_of_sameText h hn⟩

end SameText

/-! ## Variants -/

namespace Media

/-- The names of the fields of a variant. -/
def fieldNames : List String :=
  ["url", "data_size", "quality", "extension", "type", "duration"]

/-- The elements have the same children of each known name, their texts considered. -/
def Agree (e e' : Element) : Prop :=
  ∀ name ∈ fieldNames, List.Forall₂ SameText (named e.children name) (named e'.children name)

variable {e e' : Element}

theorem Agree.isSound (h : Agree e e') (hsound : IsSound e) : IsSound e' where
  dataSize := forall_mem_of_forall₂ (h "data_size" (by decide))
    (fun _ _ hc ⟨v, hv⟩ => ⟨v, holdsLong_of_sameText hc hv⟩) hsound.dataSize
  duration := forall_mem_of_forall₂ (h "duration" (by decide))
    (fun _ _ hc ⟨v, hv⟩ => ⟨v, holdsInt_of_sameText hc hv⟩) hsound.duration

theorem Agree.gathers {m : Media} (h : Agree e e') (hm : Gathers e m) : Gathers e' m where
  url := hm.url.of_forall₂ (h "url" (by decide)) fun _ _ => holdsText_of_sameText
  dataSize := hm.dataSize.of_forall₂ (h "data_size" (by decide)) fun _ _ => holdsLong_of_sameText
  quality := hm.quality.of_forall₂ (h "quality" (by decide)) fun _ _ => holdsText_of_sameText
  extension := hm.extension.of_forall₂ (h "extension" (by decide)) fun _ _ => holdsText_of_sameText
  kind := hm.kind.of_forall₂ (h "type" (by decide)) fun _ _ => holdsText_of_sameText
  duration := hm.duration.of_forall₂ (h "duration" (by decide)) fun _ _ => holdsSomeInt_of_sameText

theorem agree_of_unlined_eq (e e' : Element) (h : e.unlined = e'.unlined) : Agree e e' :=
  fun name _ => (sameNamed_of_unlined_eq h name).forall₂ sameText_of_unlined_eq

end Media

/-- The elements list variants that agree, one by one. -/
def AgreeMedias (c c' : Element) : Prop :=
  List.Forall₂ Media.Agree (named c.children "media") (named c'.children "media")

theorem agreeMedias_of_unlined_eq (c c' : Element) (h : c.unlined = c'.unlined) :
    AgreeMedias c c' :=
  (sameNamed_of_unlined_eq h "media").forall₂ Media.agree_of_unlined_eq

theorem holdsMedias_of_agree {c c' : Element} {ms : List Media} (h : AgreeMedias c c')
    (hc : HoldsMedias c ms) : HoldsMedias c' ms :=
  forall₂_of_forall₂ h (fun _ _ _ => Media.Agree.gathers) hc

/-! ## Records -/

namespace Record

/-- The names of the fields of a record that are no lists. -/
def leafNames : List String :=
  ["url", "source", "id", "unique_id", "author", "title", "thumbnail", "duration", "type", "error",
    "time_end"]

/-- The names of all fields of a record. -/
def fieldNames : List String :=
  "medias" :: leafNames

/-- The items have the same children of each known name, their texts and variants considered. -/
structure Agree (e e' : Element) : Prop where
  leaves : ∀ name ∈ leafNames,
    List.Forall₂ SameText (named e.children name) (named e'.children name)
  medias : List.Forall₂ AgreeMedias (named e.children "medias") (named e'.children "medias")

variable {e e' : Element}

theorem Agree.isSound (h : Agree e e') (hsound : IsSound e) : IsSound e' where
  id := forall_mem_of_forall₂ (h.leaves "id" (by decide))
    (fun _ _ hc ⟨v, hv⟩ => ⟨v, holdsLong_of_sameText hc hv⟩) hsound.id
  duration := forall_mem_of_forall₂ (h.leaves "duration" (by decide))
    (fun _ _ hc ⟨v, hv⟩ => ⟨v, holdsInt_of_sameText hc hv⟩) hsound.duration
  timeEnd := forall_mem_of_forall₂ (h.leaves "time_end" (by decide))
    (fun _ _ hc ⟨v, hv⟩ => ⟨v, holdsInt_of_sameText hc hv⟩) hsound.timeEnd
  error := forall_mem_of_forall₂ (h.leaves "error" (by decide))
    (fun _ _ hc ⟨t, ht⟩ => ⟨t, holdsTruth_of_sameText hc ht⟩) hsound.error
  medias := forall_mem_of_forall₂ h.medias
    (fun _ _ hc => forall_mem_of_forall₂ hc fun _ _ => Media.Agree.isSound) hsound.medias

theorem Agree.gathers {r : Record} (h : Agree e e') (hr : Gathers e r) : Gathers e' r where
  url := hr.url.of_forall₂ (h.leaves "url" (by decide)) fun _ _ => holdsText_of_sameText
  source := hr.source.of_forall₂ (h.leaves "source" (by decide)) fun _ _ => holdsText_of_sameText
  id := hr.id.of_forall₂ (h.leaves "id" (by decide)) fun _ _ => holdsLong_of_sameText
  uniqueId :=
    hr.uniqueId.of_forall₂ (h.leaves "unique_id" (by decide)) fun _ _ => holdsText_of_sameText
  author := hr.author.of_forall₂ (h.leaves "author" (by decide)) fun _ _ => holdsText_of_sameText
  title := hr.title.of_forall₂ (h.leaves "title" (by decide)) fun _ _ => holdsText_of_sameText
  thumbnail :=
    hr.thumbnail.of_forall₂ (h.leaves "thumbnail" (by decide)) fun _ _ => holdsText_of_sameText
  duration :=
    hr.duration.of_forall₂ (h.leaves "duration" (by decide)) fun _ _ => holdsInt_of_sameText
  medias := hr.medias.of_forall₂ h.medias fun _ _ => holdsMedias_of_agree
  kind := hr.kind.of_forall₂ (h.leaves "type" (by decide)) fun _ _ => holdsText_of_sameText
  error := hr.error.of_forall₂ (h.leaves "error" (by decide)) fun _ _ => holdsTruth_of_sameText
  timeEnd := hr.timeEnd.of_forall₂ (h.leaves "time_end" (by decide)) fun _ _ => holdsInt_of_sameText

/-- Children that agree name by name, in their order among themselves, can stand anywhere. -/
theorem agree_of_sameNamed (h : ∀ name ∈ fieldNames, SameNamed e.children e'.children name) :
    Agree e e' where
  leaves name hname := (h name (List.mem_cons_of_mem _ hname)).forall₂ sameText_of_unlined_eq
  medias := (h "medias" List.mem_cons_self).forall₂ agreeMedias_of_unlined_eq

/-- The one item is a rearrangement of the other, apart from lines, and every known name comes once
at most. -/
structure Permuted (e e' : Element) : Prop where
  perm : (e.children.map Element.unlined).Perm (e'.children.map Element.unlined)
  once : ∀ name ∈ fieldNames, (named e.children name).length ≤ 1

/-- Without the children of unknown names the items have the same children, apart from lines. -/
def SameKnown (e e' : Element) : Prop :=
  (e.children.map Element.unlined).filter (fun c => c.name ∈ fieldNames) =
    (e'.children.map Element.unlined).filter (fun c => c.name ∈ fieldNames)

theorem agree_of_permuted (h : Permuted e e') : Agree e e' := by
  refine agree_of_sameNamed fun name hname => ?_
  have hperm := h.perm.filter (fun c => decide (c.name = name))
  change (named (e.children.map Element.unlined) name).Perm
    (named (e'.children.map Element.unlined) name) at hperm
  rw [named_map_unlined, named_map_unlined] at hperm
  unfold SameNamed
  -- a list of one element at most has no other rearrangement
  have hlength := h.once name hname
  cases hes : named e.children name with
  | nil =>
      rw [hes] at hperm
      exact (List.nil_perm.mp hperm).symm
  | cons c rest =>
      rw [hes, List.length_cons] at hlength
      obtain rfl := List.eq_nil_of_length_eq_zero (Nat.le_zero.mp (Nat.le_of_succ_le_succ hlength))
      rw [hes] at hperm
      exact List.singleton_perm.mp hperm

theorem agree_of_sameKnown (h : SameKnown e e') : Agree e e' := by
  refine agree_of_sameNamed fun name hname => ?_
  have hnamed : ∀ es : List Element,
      named (es.filter (fun c => c.name ∈ fieldNames)) name = named es name := by
    intro es
    rw [named, List.filter_filter]
    refine List.filter_congr fun c _ => ?_
    by_cases hc : c.name = name
    · simp [hc, hname]
    · simp [hc]
  unfold SameNamed
  rw [← named_map_unlined, ← named_map_unlined, ← hnamed, h, hnamed]

/-- **Reading takes the last occurrence of each field.** An item is read exactly if all its numbers
and truth values are ones, those of fields that are overwritten included; the record then has the
last value of each field, or its default. Otherwise the first fault in document order is named, with
the text as it is written. Order and strangers do not matter. -/
theorem reading_takes_last (hname : e.name = "item") (huri : e.uri = none) :
    ((∃ r, ofElement e = .ok r) ↔ IsSound e) ∧
    (∀ r, ofElement e = .ok r ↔ IsSound e ∧ Gathers e r) ∧
    (IsSound e ↔ ∀ x ∈ typed e, x.2.Fits x.1) ∧
    ((typed e).map Prod.fst).Sublist e.inOrder ∧
    (∀ err, ofElement e = .error err ↔ ∃ before x after, typed e = before ++ x :: after ∧
      (∀ y ∈ before, y.2.Fits y.1) ∧ ¬x.2.Fits x.1 ∧
      err = .invalidValue x.1.name x.1.text x.2 x.1.line) ∧
    ∀ e' r, e'.name = "item" → e'.uri = none → Agree e e' ∨ Permuted e e' ∨ SameKnown e e' →
      ofElement e = .ok r → ofElement e' = .ok r := by
  refine ⟨exists_ofElement_iff hname huri, fun r => ofElement_eq_ok_iff hname huri, isSound_iff,
    typed_sublist e, fun err => ofElement_eq_error_iff hname huri, ?_⟩
  intro e' r hname' huri' hagree hread
  have h : Agree e e' := by
    rcases hagree with h | h | h
    · exact h
    · exact agree_of_permuted h
    · exact agree_of_sameKnown h
  obtain ⟨hsound, hgathers⟩ := (ofElement_eq_ok_iff hname huri).mp hread
  exact (ofElement_eq_ok_iff hname' huri').mpr ⟨h.isSound hsound, h.gathers hgathers⟩

end Record

/-!
## A jumbled item

In `jumbled` some fields come twice, in no order, with strangers between them, also inside the list
of variants. `tidied` has the same children without the strangers, and the titles first. In `faulty`
a number is none, but the list in which it stands is overwritten by an empty one.
-/

namespace Jumble

open Record (Agree Permuted SameKnown IsSound Gathers)

def leaf (line : Nat) (name text : String) : Element :=
  .mk { name := name, line := line } text []

def block (line : Nat) (name : String) (children : List Element) : Element :=
  .mk { name := name, line := line } "" children

def jumbled : Element :=
  block 1 "item"
    [leaf 2 "title" "first", leaf 3 "duration" " 7\n", leaf 4 "extra" "seven", block 5 "medias" [],
      leaf 6 "error" "1",
      block 7 "medias"
        [block 8 "media" [leaf 9 "data_size" "1", leaf 10 "url" "u", leaf 11 "data_size" " +12"],
          block 12 "other" [leaf 13 "data_size" "none"]],
      leaf 14 "title" "last"]

def tidied : Element :=
  block 1 "item"
    [leaf 2 "title" "first", leaf 3 "title" "last", block 4 "medias" [],
      block 5 "medias"
        [block 6 "media" [leaf 7 "url" "u", leaf 8 "data_size" "1", leaf 9 "data_size" " +12"]],
      leaf 10 "error" "1", leaf 11 "duration" " 7\n"]

def record : Record where
  title := "last"
  duration := 7
  error := true
  medias := [{ url := "u", dataSize := 12 }]

def faulty : Element :=
  block 1 "item"
    [leaf 2 "id" "5", block 3 "medias" [block 4 "media" [leaf 5 "duration" " x "]],
      leaf 6 "error" "yes", block 7 "medias" []]

theorem agree_tidied : Agree jumbled tidied where
  leaves := by
    simp only [Record.leafNames, List.forall_mem_cons]
    exact ⟨.nil, .nil, .nil, .nil, .nil, .cons rfl (.cons rfl .nil), .nil, .cons rfl .nil, .nil,
      .cons rfl .nil, .nil, nofun⟩
  medias := by
    have hmedia : Media.Agree
        (block 8 "media"
          [leaf 9 "data_size" "1", leaf 10 "url" "u", leaf 11 "data_size" " +12"])
        (block 6 "media"
          [leaf 7 "url" "u", leaf 8 "data_size" "1", leaf 9 "data_size" " +12"]) := by
      simp only [Media.Agree, Media.fieldNames, List.forall_mem_cons]
      exact ⟨.cons rfl .nil, .cons rfl (.cons rfl .nil), .nil, .nil, .nil, .nil, nofun⟩
    exact .cons .nil (.cons (.cons hmedia .nil) .nil)

theorem reading_takes_last_jumbled :
    IsSound jumbled ∧ Gathers jumbled record ∧ Record.ofElement tidied = .ok record ∧
      Record.ofElement faulty = .error (.invalidValue "duration" " x " .int32 5) ∧
      ¬IsSound faulty := by
  have hjumbled : Record.ofElement jumbled = .ok record := by
    rfl
  have hfaulty : Record.ofElement faulty =
      .error (.invalidValue "duration" " x " .int32 5) := by
    rfl
  obtain ⟨-, hok, -, -, -, horder⟩ := Record.reading_takes_last (e := jumbled) rfl rfl
  obtain ⟨hsound, -, -, -, -, -⟩ := Record.reading_takes_last (e := faulty) rfl rfl
  obtain ⟨hjumbledSound, hgathers⟩ := (hok record).mp hjumbled
  refine ⟨hjumbledSound, hgathers, horder tidied record rfl rfl (.inl agree_tidied) hjumbled,
    hfaulty, fun h => ?_⟩
  obtain ⟨r, hr⟩ := hsound.mpr h
  cases hr.symm.trans hfaulty

end Jumble

end VideoCatalog
