import VideoCatalog.Proofs.Record.Faults

/-!
# The last occurrence of each field

The reader overwrites the field of each child that it knows, so a field has the value of the last
child of its name in the end, or its default if there is none (`TakesLast`). That is so of one field
if a child of its name is read into it and no other child touches it (`TakesLast.of_foldlM`): what
one child does to all fields is said by `takes_of_readField` and `keeps_of_readField`.

`Record.Gathers e r` says it of all fields of a record. Together with the soundness of its elements
this is all that there is to know of the record that an item describes (`ofElement_eq_ok_iff`).
-/

namespace VideoCatalog

open Xml (Element)

/-! ## One field -/

/-- The last child of this name. -/
def lastOf? (es : List Element) (name : String) : Option Element :=
  (named es name).getLast?

/-- The value is that of the last child of the name, or the default without such a child. -/
def TakesLast {β : Type} (es : List Element) (name : String) (holds : Element → β → Prop)
    (default v : β) : Prop :=
  match lastOf? es name with
  | some c => holds c v
  | none => v = default

theorem lastOf?_cons_eq {e : Element} {es : List Element} {name : String} (hname : e.name = name) :
    lastOf? (e :: es) name = some ((lastOf? es name).getD e) := by
  rw [lastOf?, named, List.filter_cons_of_pos (by simpa using hname), List.getLast?_cons]
  rfl

theorem lastOf?_cons_ne {e : Element} {es : List Element} {name : String} (hname : e.name ≠ name) :
    lastOf? (e :: es) name = lastOf? es name := by
  rw [lastOf?, named, List.filter_cons_of_neg (by simpa using hname)]
  rfl

namespace TakesLast

variable {α β : Type} {es : List Element} {name : String} {holds : Element → β → Prop}
  {default v v' : β}

/-- Reading child by child takes the last value of a field that only children of its name touch. -/
theorem of_foldlM {read : α → Element → Except ReadError α} {a a' : α} (get : α → β)
    (htakes : ∀ a e a', read a e = .ok a' → e.name = name → holds e (get a'))
    (hleaves : ∀ a e a', read a e = .ok a' → e.name ≠ name → get a' = get a)
    (h : es.foldlM read a = .ok a') : TakesLast es name holds (get a) (get a') := by
  induction es generalizing a with
  | nil =>
      obtain rfl := Except.ok.inj h
      exact rfl
  | cons e es ih =>
      obtain ⟨a₁, hread, hrest⟩ := exists_of_foldlM_cons h
      have hlast : TakesLast es name holds (get a₁) (get a') := ih hrest
      unfold TakesLast at hlast ⊢
      by_cases hname : e.name = name
      · rw [lastOf?_cons_eq hname]
        cases hes : lastOf? es name with
        | none =>
            -- the child at hand is the last one, and its value stays
            rw [hes] at hlast
            have hvalue : get a' = get a₁ := hlast
            exact hvalue ▸ htakes a e a₁ hread hname
        | some c =>
            rw [hes] at hlast
            exact hlast
      · rwa [lastOf?_cons_ne hname, ← hleaves a e a₁ hread hname]

theorem unique (hholds : ∀ e v v', holds e v → holds e v' → v = v')
    (h : TakesLast es name holds default v) (h' : TakesLast es name holds default v') :
    v = v' := by
  unfold TakesLast at h h'
  cases hes : lastOf? es name with
  | none =>
      rw [hes] at h h'
      exact Eq.trans h (Eq.symm h')
  | some c =>
      rw [hes] at h h'
      exact hholds c v v' h h'

end TakesLast

/-! ## Values -/

/-- The text of the element, as it is written. -/
def HoldsText (e : Element) (s : String) : Prop :=
  s = e.text

/-- A number of 32 bits where there may be none. -/
def HoldsSomeInt (e : Element) (v : Option Int32) : Prop :=
  ∃ n, v = some n ∧ HoldsInt e n

theorem holdsText_unique (e : Element) (s s' : String) (h : HoldsText e s) (h' : HoldsText e s') :
    s = s' :=
  Eq.trans h (Eq.symm h')

theorem holdsLong_unique (e : Element) (v v' : Int64) (h : HoldsLong e v) (h' : HoldsLong e v') :
    v = v' :=
  Int64.toInt_inj.mp (h.unique h')

theorem holdsInt_unique (e : Element) (v v' : Int32) (h : HoldsInt e v) (h' : HoldsInt e v') :
    v = v' :=
  Int32.toInt_inj.mp (h.unique h')

theorem holdsSomeInt_unique (e : Element) (v v' : Option Int32) (h : HoldsSomeInt e v)
    (h' : HoldsSomeInt e v') : v = v' := by
  obtain ⟨n, rfl, hn⟩ := h
  obtain ⟨n', rfl, hn'⟩ := h'
  rw [holdsInt_unique e n n' hn hn']

theorem holdsTruth_unique (e : Element) (t t' : Bool) (h : HoldsTruth e t) (h' : HoldsTruth e t') :
    t = t' :=
  Except.ok.inj ((readTruth_eq_ok_iff.mpr h).symm.trans (readTruth_eq_ok_iff.mpr h'))

/-! ## Variants -/

namespace Media

/-- The variant has the last value of each field. -/
structure Gathers (e : Element) (m : Media) : Prop where
  url : TakesLast e.children "url" HoldsText "" m.url
  dataSize : TakesLast e.children "data_size" HoldsLong 0 m.dataSize
  quality : TakesLast e.children "quality" HoldsText "" m.quality
  extension : TakesLast e.children "extension" HoldsText "" m.extension
  kind : TakesLast e.children "type" HoldsText "" m.kind
  duration : TakesLast e.children "duration" HoldsSomeInt none m.duration

/-- The variant has the value of this child in the field of its name. -/
structure Takes (e : Element) (m : Media) : Prop where
  url : e.name = "url" → HoldsText e m.url
  dataSize : e.name = "data_size" → HoldsLong e m.dataSize
  quality : e.name = "quality" → HoldsText e m.quality
  extension : e.name = "extension" → HoldsText e m.extension
  kind : e.name = "type" → HoldsText e m.kind
  duration : e.name = "duration" → HoldsSomeInt e m.duration

theorem takes_of_readField {m m' : Media} {e : Element} (h : readField .external m e = .ok m') :
    Takes e m' := by
  refine ⟨?_, ?dataSize, ?_, ?_, ?_, ?duration⟩
  case dataSize =>
    intro hname
    simp only [readField, hname, FieldNames.external, reduceIte, String.reduceEq] at h
    obtain ⟨v, hv, rfl⟩ := map_eq_ok_iff.mp h
    exact readInt64_eq_ok_iff.mp hv
  case duration =>
    intro hname
    simp only [readField, hname, reduceIte, String.reduceEq] at h
    obtain ⟨v, hv, rfl⟩ := map_eq_ok_iff.mp h
    exact ⟨v, rfl, readInt32_eq_ok_iff.mp hv⟩
  -- What is left are the texts.
  all_goals
    intro hname
    simp only [readField, hname, reduceIte, String.reduceEq] at h
    obtain rfl := Except.ok.inj h
    exact rfl

theorem gathers_of_ofElement {m : Media} {e : Element} (h : ofElement .external e = .ok m) :
    Gathers e m where
  url := .of_foldlM Media.url (fun _ _ _ hread => (takes_of_readField hread).url)
    (fun m c m' hread => (keeps_of_readField m c m' hread).url) h
  dataSize := .of_foldlM Media.dataSize (fun _ _ _ hread => (takes_of_readField hread).dataSize)
    (fun m c m' hread => (keeps_of_readField m c m' hread).dataSize) h
  quality := .of_foldlM Media.quality (fun _ _ _ hread => (takes_of_readField hread).quality)
    (fun m c m' hread => (keeps_of_readField m c m' hread).quality) h
  extension := .of_foldlM Media.extension (fun _ _ _ hread => (takes_of_readField hread).extension)
    (fun m c m' hread => (keeps_of_readField m c m' hread).extension) h
  kind := .of_foldlM Media.kind (fun _ _ _ hread => (takes_of_readField hread).kind)
    (fun m c m' hread => (keeps_of_readField m c m' hread).kind) h
  duration := .of_foldlM Media.duration (fun _ _ _ hread => (takes_of_readField hread).duration)
    (fun m c m' hread => (keeps_of_readField m c m' hread).duration) h

theorem Gathers.unique {e : Element} {m m' : Media} (h : Gathers e m) (h' : Gathers e m') :
    m = m' := by
  cases m
  cases m'
  congr 1
  · exact h.url.unique holdsText_unique h'.url
  · exact h.dataSize.unique holdsLong_unique h'.dataSize
  · exact h.quality.unique holdsText_unique h'.quality
  · exact h.extension.unique holdsText_unique h'.extension
  · exact h.kind.unique holdsText_unique h'.kind
  · exact h.duration.unique holdsSomeInt_unique h'.duration

end Media

/-! ## Records -/

/-- The variants that the element lists, each with the last value of each field. -/
def HoldsMedias (e : Element) (ms : List Media) : Prop :=
  List.Forall₂ Media.Gathers (named e.children "media") ms

theorem holdsMedias_unique (e : Element) (ms ms' : List Media) (h : HoldsMedias e ms)
    (h' : HoldsMedias e ms') : ms = ms' := by
  have hunique : Relator.RightUnique Media.Gathers := fun _ _ _ hm hm' => hm.unique hm'
  exact hunique.forall₂ h h'

theorem forall₂_of_mapM {ε α β : Type} {f : α → Except ε β} {as : List α} {bs : List β}
    (h : as.mapM f = .ok bs) : List.Forall₂ (fun a b => f a = .ok b) as bs := by
  induction as generalizing bs with
  | nil =>
      obtain rfl := Except.ok.inj h
      exact .nil
  | cons a as ih =>
      rw [List.mapM_cons] at h
      cases ha : f a with
      | error err =>
          rw [ha] at h
          cases h
      | ok b =>
          cases has : as.mapM f with
          | error err =>
              rw [ha, has] at h
              cases h
          | ok bs' =>
              rw [ha, has] at h
              obtain rfl := Except.ok.inj h
              exact .cons ha (ih has)

theorem holdsMedias_of_readMedias {e : Element} {ms : List Media}
    (h : Record.readMedias .external e = .ok ms) : HoldsMedias e ms :=
  (forall₂_of_mapM h).imp fun _ _ => Media.gathers_of_ofElement

namespace Record

/-- The record has the last value of each field. -/
structure Gathers (e : Element) (r : Record) : Prop where
  url : TakesLast e.children "url" HoldsText "" r.url
  source : TakesLast e.children "source" HoldsText "" r.source
  id : TakesLast e.children "id" HoldsLong 0 r.id
  uniqueId : TakesLast e.children "unique_id" HoldsText "" r.uniqueId
  author : TakesLast e.children "author" HoldsText "" r.author
  title : TakesLast e.children "title" HoldsText "" r.title
  thumbnail : TakesLast e.children "thumbnail" HoldsText "" r.thumbnail
  duration : TakesLast e.children "duration" HoldsInt 0 r.duration
  medias : TakesLast e.children "medias" HoldsMedias [] r.medias
  kind : TakesLast e.children "type" HoldsText "" r.kind
  error : TakesLast e.children "error" HoldsTruth false r.error
  timeEnd : TakesLast e.children "time_end" HoldsInt 0 r.timeEnd

/-- The record has the value of this child in the field of its name. -/
structure Takes (e : Element) (r : Record) : Prop where
  url : e.name = "url" → HoldsText e r.url
  source : e.name = "source" → HoldsText e r.source
  id : e.name = "id" → HoldsLong e r.id
  uniqueId : e.name = "unique_id" → HoldsText e r.uniqueId
  author : e.name = "author" → HoldsText e r.author
  title : e.name = "title" → HoldsText e r.title
  thumbnail : e.name = "thumbnail" → HoldsText e r.thumbnail
  duration : e.name = "duration" → HoldsInt e r.duration
  medias : e.name = "medias" → HoldsMedias e r.medias
  kind : e.name = "type" → HoldsText e r.kind
  error : e.name = "error" → HoldsTruth e r.error
  timeEnd : e.name = "time_end" → HoldsInt e r.timeEnd

theorem takes_of_readField {r r' : Record} {e : Element} (h : readField .external r e = .ok r') :
    Takes e r' := by
  refine ⟨?_, ?_, ?id, ?_, ?_, ?_, ?_, ?duration, ?medias, ?_, ?error, ?timeEnd⟩
  case id =>
    intro hname
    simp only [readField, hname, reduceIte, String.reduceEq] at h
    obtain ⟨v, hv, rfl⟩ := map_eq_ok_iff.mp h
    exact readInt64_eq_ok_iff.mp hv
  case duration =>
    intro hname
    simp only [readField, hname, reduceIte, String.reduceEq] at h
    obtain ⟨v, hv, rfl⟩ := map_eq_ok_iff.mp h
    exact readInt32_eq_ok_iff.mp hv
  case timeEnd =>
    intro hname
    simp only [readField, hname, FieldNames.external, reduceIte, String.reduceEq] at h
    obtain ⟨v, hv, rfl⟩ := map_eq_ok_iff.mp h
    exact readInt32_eq_ok_iff.mp hv
  case error =>
    intro hname
    simp only [readField, hname, reduceIte, String.reduceEq] at h
    obtain ⟨t, ht, rfl⟩ := map_eq_ok_iff.mp h
    exact readTruth_eq_ok_iff.mp ht
  case medias =>
    intro hname
    simp only [readField, hname, reduceIte, String.reduceEq] at h
    obtain ⟨ms, hms, rfl⟩ := map_eq_ok_iff.mp h
    exact holdsMedias_of_readMedias hms
  all_goals
    intro hname
    simp only [readField, hname, FieldNames.external, reduceIte, String.reduceEq] at h
    obtain rfl := Except.ok.inj h
    exact rfl

theorem gathers_of_readFields {r : Record} {e : Element} (h : readFields .external e = .ok r) :
    Gathers e r where
  url := .of_foldlM Record.url (fun _ _ _ hread => (takes_of_readField hread).url)
    (fun r c r' hread => (keeps_of_readField r c r' hread).url) h
  source := .of_foldlM Record.source (fun _ _ _ hread => (takes_of_readField hread).source)
    (fun r c r' hread => (keeps_of_readField r c r' hread).source) h
  id := .of_foldlM Record.id (fun _ _ _ hread => (takes_of_readField hread).id)
    (fun r c r' hread => (keeps_of_readField r c r' hread).id) h
  uniqueId := .of_foldlM Record.uniqueId (fun _ _ _ hread => (takes_of_readField hread).uniqueId)
    (fun r c r' hread => (keeps_of_readField r c r' hread).uniqueId) h
  author := .of_foldlM Record.author (fun _ _ _ hread => (takes_of_readField hread).author)
    (fun r c r' hread => (keeps_of_readField r c r' hread).author) h
  title := .of_foldlM Record.title (fun _ _ _ hread => (takes_of_readField hread).title)
    (fun r c r' hread => (keeps_of_readField r c r' hread).title) h
  thumbnail := .of_foldlM Record.thumbnail
    (fun _ _ _ hread => (takes_of_readField hread).thumbnail)
    (fun r c r' hread => (keeps_of_readField r c r' hread).thumbnail) h
  duration := .of_foldlM Record.duration (fun _ _ _ hread => (takes_of_readField hread).duration)
    (fun r c r' hread => (keeps_of_readField r c r' hread).duration) h
  medias := .of_foldlM Record.medias (fun _ _ _ hread => (takes_of_readField hread).medias)
    (fun r c r' hread => (keeps_of_readField r c r' hread).medias) h
  kind := .of_foldlM Record.kind (fun _ _ _ hread => (takes_of_readField hread).kind)
    (fun r c r' hread => (keeps_of_readField r c r' hread).kind) h
  error := .of_foldlM Record.error (fun _ _ _ hread => (takes_of_readField hread).error)
    (fun r c r' hread => (keeps_of_readField r c r' hread).error) h
  timeEnd := .of_foldlM Record.timeEnd (fun _ _ _ hread => (takes_of_readField hread).timeEnd)
    (fun r c r' hread => (keeps_of_readField r c r' hread).timeEnd) h

theorem Gathers.unique {e : Element} {r r' : Record} (h : Gathers e r) (h' : Gathers e r') :
    r = r' := by
  cases r
  cases r'
  congr 1
  · exact h.id.unique holdsLong_unique h'.id
  · exact h.url.unique holdsText_unique h'.url
  · exact h.source.unique holdsText_unique h'.source
  · exact h.uniqueId.unique holdsText_unique h'.uniqueId
  · exact h.author.unique holdsText_unique h'.author
  · exact h.title.unique holdsText_unique h'.title
  · exact h.thumbnail.unique holdsText_unique h'.thumbnail
  · exact h.duration.unique holdsInt_unique h'.duration
  · exact h.medias.unique holdsMedias_unique h'.medias
  · exact h.kind.unique holdsText_unique h'.kind
  · exact h.error.unique holdsTruth_unique h'.error
  · exact h.timeEnd.unique holdsInt_unique h'.timeEnd

theorem gathers_of_ofElement {e : Element} (hname : e.name = "item") (huri : e.uri = none)
    {r : Record} (h : ofElement e = .ok r) : Gathers e r :=
  gathers_of_readFields (ofElement_eq hname huri ▸ h)

/-- An item describes the record with the last value of each field, and only if all of its elements
hold the values that they have to. -/
theorem ofElement_eq_ok_iff {e : Element} (hname : e.name = "item") (huri : e.uri = none)
    {r : Record} : ofElement e = .ok r ↔ IsSound e ∧ Gathers e r := by
  constructor
  · intro h
    exact ⟨(exists_ofElement_iff hname huri).mp ⟨r, h⟩, gathers_of_ofElement hname huri h⟩
  · rintro ⟨hsound, hgathers⟩
    obtain ⟨r', hr'⟩ := (exists_ofElement_iff hname huri).mpr hsound
    obtain rfl := hgathers.unique (gathers_of_ofElement hname huri hr')
    exact hr'

end Record

end VideoCatalog
