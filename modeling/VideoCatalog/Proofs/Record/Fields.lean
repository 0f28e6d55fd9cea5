import Mathlib.Data.List.Forall2
import VideoCatalog.Proofs.Text.Integer
import VideoCatalog.Proofs.Xml.Tree
import VideoCatalog.Record.Xml

/-!
# Fields are read as they were written

`Record.clean r` is the record as a document carries it: in every text a character that XML cannot
hold becomes U+FFFD, and nothing else changes.

Reading takes the children of an element one after the other. `Sets read part g` says that a child
which shows `part` changes what has been read so far as `g` does, whatever that is; `foldlM_of_sets`
puts the steps together. So every field is looked at once, on its own, and a record comes out clean
and otherwise as it was (`readFields_of_showAll`) under any names that keep its fields apart
(`FieldNames.Distinct`).
-/

namespace VideoCatalog

open Xml (Element Markup ShowAll Shows)

/-! ## Records as documents carry them -/

/-- The variant as a document carries it. -/
def Media.clean (m : Media) : Media :=
  { m with
    url := Xml.clean m.url, quality := Xml.clean m.quality, extension := Xml.clean m.extension,
    kind := Xml.clean m.kind }

/-- The record as a document carries it. -/
def Record.clean (r : Record) : Record :=
  { r with
    url := Xml.clean r.url, source := Xml.clean r.source, uniqueId := Xml.clean r.uniqueId,
    author := Xml.clean r.author, title := Xml.clean r.title, thumbnail := Xml.clean r.thumbnail,
    medias := r.medias.map Media.clean, kind := Xml.clean r.kind }

/-- The texts of a variant. -/
def Media.texts (m : Media) : List String :=
  [m.url, m.quality, m.extension, m.kind]

/-- The texts of a record, those of its variants included. -/
def Record.texts (r : Record) : List String :=
  [r.url, r.source, r.uniqueId, r.author, r.title, r.thumbnail, r.kind] ++
    r.medias.flatMap Media.texts

/-- No text of the record has a character that a document cannot hold. -/
def Record.IsXml (r : Record) : Prop :=
  ∀ s ∈ r.texts, ∀ c ∈ s.toList, Xml.isXmlChar c = true

theorem Media.clean_of_isXml {m : Media}
    (h : ∀ s ∈ m.texts, ∀ c ∈ s.toList, Xml.isXmlChar c = true) : m.clean = m := by
  have hclean : ∀ s ∈ m.texts, Xml.clean s = s := fun s hs => Xml.clean_of_isXmlChar (h s hs)
  simp only [Media.texts, List.forall_mem_cons] at hclean
  obtain ⟨hurl, hquality, hextension, hkind, -⟩ := hclean
  rw [Media.clean, hurl, hquality, hextension, hkind]

/-- A record that a document can hold is carried as it is. -/
theorem Record.clean_of_isXml {r : Record} (h : r.IsXml) : r.clean = r := by
  have hclean : ∀ s ∈ r.texts, Xml.clean s = s := fun s hs => Xml.clean_of_isXmlChar (h s hs)
  have hmedias : r.medias.map Media.clean = r.medias := by
    have hmedia : ∀ m ∈ r.medias, m.clean = m := fun m hm => Media.clean_of_isXml fun s hs =>
      h s (List.mem_append_right _ (List.mem_flatMap.mpr ⟨m, hm, hs⟩))
    rw [List.map_congr_left hmedia, List.map_id']
  simp only [Record.texts, List.cons_append, List.forall_mem_cons] at hclean
  obtain ⟨hurl, hsource, huniqueId, hauthor, htitle, hthumbnail, hkind, -⟩ := hclean
  rw [Record.clean, hurl, hsource, huniqueId, hauthor, htitle, hthumbnail, hmedias, hkind]

/-! ## Values -/

theorem clean_toString_int (i : Int) : Xml.clean (toString i) = toString i := by
  refine Xml.clean_of_isXmlChar fun c hc => ?_
  obtain ⟨hlow, hhigh⟩ := Text.toNat_of_mem_toString_int hc
  simp only [Xml.isXmlChar, Bool.or_eq_true, Bool.and_eq_true, decide_eq_true_eq]
  omega

theorem readInt64_of_text {e : Element} {i : Int64} (h : e.text = Xml.clean (toString i.toInt)) :
    readInt64 e = .ok i := by
  rw [clean_toString_int] at h
  rw [readInt64, readValue, h, Text.int64?_trim_toString]

theorem readInt32_of_text {e : Element} {i : Int32} (h : e.text = Xml.clean (toString i.toInt)) :
    readInt32 e = .ok i := by
  rw [clean_toString_int] at h
  rw [readInt32, readValue, h, Text.int32?_trim_toString]

theorem readTruth_of_text {e : Element} {t : Bool} (h : e.text = Xml.clean (truthText t)) :
    readTruth e = .ok t := by
  have hread : truth? (Text.trim (Xml.clean (truthText t))) = some t := by
    cases t <;> decide
  rw [readTruth, readValue, h, hread]

/-! ## Fields -/

/-- A child that shows the part changes what has been read so far in this way. -/
def Sets {α : Type} (read : α → Element → Except ReadError α) (part : Markup) (g : α → α) : Prop :=
  ∀ (a : α) (space : Option String) (e : Element), Shows space part e → read a e = .ok (g a)

/-- Children that show some parts change it as each of them does, in turn. -/
theorem foldlM_of_sets {α : Type} {read : α → Element → Except ReadError α} {parts : List Markup}
    {gs : List (α → α)} (h : List.Forall₂ (Sets read) parts gs) {space : Option String}
    {es : List Element} (hes : ShowAll space parts es) (a : α) :
    es.foldlM read a = .ok (gs.foldl (fun a g => g a) a) := by
  induction h generalizing es a with
  | nil =>
      cases es with
      | nil => rfl
      | cons e es => exact hes.elim
  | @cons part g parts gs hpart _ ih =>
      cases es with
      | nil => exact hes.elim
      | cons e es =>
          obtain ⟨he, hes⟩ := hes
          rw [List.foldlM_cons, hpart a space e he]
          exact ih hes (g a)

/-- The names that vary are different from those that do not. -/
structure FieldNames.Distinct (names : FieldNames) : Prop where
  uniqueId : names.uniqueId ∉ ["url", "source", "id", "author", "title", "thumbnail", "duration",
    "type", "error", "medias"]
  timeEnd : names.timeEnd ∉ ["url", "source", "id", "author", "title", "thumbnail", "duration",
    "type", "error", "medias", names.uniqueId]
  dataSize : names.dataSize ∉ ["url", "quality", "extension", "type", "duration"]

theorem FieldNames.Distinct.external : FieldNames.external.Distinct where
  uniqueId := by decide
  timeEnd := by decide
  dataSize := by decide

theorem FieldNames.Distinct.internal : FieldNames.internal.Distinct where
  uniqueId := by decide
  timeEnd := by decide
  dataSize := by decide

theorem sets_leaf {α : Type} {read : α → Element → Except ReadError α} {name value : String}
    {g : α → α}
    (h : ∀ a e, e.name = name → e.text = Xml.clean value → read a e = .ok (g a)) :
    Sets read (.leaf name value) g := fun a _ e ⟨hbears, htext, _⟩ => h a e hbears.name htext

/-! ## Variants -/

namespace Media

/-- What the children of a written variant set, one after the other. -/
def settings (m : Media) : List (Media → Media) :=
  [fun a => { a with url := Xml.clean m.url }, fun a => { a with dataSize := m.dataSize },
    fun a => { a with quality := Xml.clean m.quality },
    fun a => { a with extension := Xml.clean m.extension },
    fun a => { a with kind := Xml.clean m.kind }] ++
  match m.duration with
  | some d => [fun a => { a with duration := some d }]
  | none => []

theorem foldl_settings (m : Media) : m.settings.foldl (fun a g => g a) {} = m.clean := by
  obtain ⟨url, dataSize, quality, extension, kind, duration⟩ := m
  cases duration <;> rfl

theorem sets_settings {names : FieldNames} (h : names.Distinct) (m : Media) :
    List.Forall₂ (Sets (readField names))
      ([.leaf "url" m.url, .leaf names.dataSize (toString m.dataSize.toInt),
        .leaf "quality" m.quality, .leaf "extension" m.extension, .leaf "type" m.kind] ++
      match m.duration with
      | some d => [.leaf "duration" (toString d.toInt)]
      | none => [])
      m.settings := by
  refine List.rel_append (.cons (sets_leaf ?url) <| .cons (sets_leaf ?dataSize) <|
    .cons (sets_leaf ?quality) <| .cons (sets_leaf ?extension) <|
    .cons (sets_leaf ?kind) .nil) ?last
  case dataSize =>
    intro a e hname htext
    have hother := h.dataSize
    simp only [List.mem_cons, List.not_mem_nil, or_false, not_or] at hother
    simp [readField, hname, hother, readInt64_of_text htext, Except.map]
  case last =>
    cases m.duration with
    | none => exact .nil
    | some d =>
        refine .cons (sets_leaf fun a e hname htext => ?_) .nil
        simp [readField, hname, readInt32_of_text htext, Except.map]
  -- What is left are the texts.
  all_goals
    intro a e hname htext
    simp [readField, hname, htext]

/-- A variant is read as it was written. -/
theorem ofElement_of_shows {names : FieldNames} (h : names.Distinct) {m : Media}
    {space : Option String} {e : Element} (he : Shows space (markup names m) e) :
    ofElement names e = .ok m.clean := by
  obtain ⟨-, -, hchildren⟩ := he
  rw [ofElement, foldlM_of_sets (sets_settings h m) hchildren, foldl_settings]

end Media

/-! ## Records -/

namespace Record

/-- All variants are read as they were written, in order. -/
theorem mapM_of_showAll {names : FieldNames} (h : names.Distinct) {space : Option String} :
    ∀ {ms : List Media} {es : List Element}, ShowAll space (ms.map (Media.markup names)) es →
      (es.filter (fun c => c.name = "media")).mapM (Media.ofElement names) =
        .ok (ms.map Media.clean)
  | [], [], _ => rfl
  | m :: ms, e :: es, ⟨he, hes⟩ => by
      have hname : e.name = "media" := he.1.name
      rw [List.filter_cons_of_pos (by simpa using hname), List.mapM_cons,
        Media.ofElement_of_shows h he, mapM_of_showAll h hes]
      rfl

theorem sets_medias {names : FieldNames} (h : names.Distinct) (ms : List Media) :
    Sets (readField names) (mediasMarkup names ms) fun a =>
      { a with medias := ms.map Media.clean } := by
  intro a space e he
  have hread : e.name = "medias" ∧ readMedias names e = .ok (ms.map Media.clean) := by
    cases ms with
    | nil =>
        obtain ⟨hbears, -, hchildren⟩ := he
        refine ⟨hbears.name, ?_⟩
        rw [readMedias, hchildren]
        rfl
    | cons m ms =>
        obtain ⟨hbears, -, hchildren⟩ := he
        exact ⟨hbears.name, mapM_of_showAll h hchildren⟩
  simp [readField, hread, Except.map]

/-- What the children of a written record set, one after the other. -/
def settings (r : Record) : List (Record → Record) :=
  [fun a => { a with url := Xml.clean r.url }, fun a => { a with source := Xml.clean r.source },
    fun a => { a with id := r.id }, fun a => { a with uniqueId := Xml.clean r.uniqueId },
    fun a => { a with author := Xml.clean r.author },
    fun a => { a with title := Xml.clean r.title },
    fun a => { a with thumbnail := Xml.clean r.thumbnail },
    fun a => { a with duration := r.duration },
    fun a => { a with medias := r.medias.map Media.clean },
    fun a => { a with kind := Xml.clean r.kind }, fun a => { a with error := r.error },
    fun a => { a with timeEnd := r.timeEnd }]

theorem sets_settings {names : FieldNames} (h : names.Distinct) (r : Record) :
    List.Forall₂ (Sets (readField names)) (fieldMarkup names r) r.settings := by
  refine .cons (sets_leaf ?url) <| .cons (sets_leaf ?source) <| .cons (sets_leaf ?id) <|
    .cons (sets_leaf ?uniqueId) <| .cons (sets_leaf ?author) <| .cons (sets_leaf ?title) <|
    .cons (sets_leaf ?thumbnail) <| .cons (sets_leaf ?duration) <|
    .cons (sets_medias h r.medias) <| .cons (sets_leaf ?kind) <| .cons (sets_leaf ?error) <|
    .cons (sets_leaf ?timeEnd) .nil
  case id =>
    intro a e hname htext
    simp [readField, hname, readInt64_of_text htext, Except.map]
  case uniqueId =>
    -- A name that varies is only looked at after all others.
    intro a e hname htext
    have hother := h.uniqueId
    simp only [List.mem_cons, List.not_mem_nil, or_false, not_or] at hother
    simp [readField, hname, hother, htext]
  case duration =>
    intro a e hname htext
    simp [readField, hname, readInt32_of_text htext, Except.map]
  case error =>
    intro a e hname htext
    simp [readField, hname, readTruth_of_text htext, Except.map]
  case timeEnd =>
    intro a e hname htext
    have hother := h.timeEnd
    simp only [List.mem_cons, List.not_mem_nil, or_false, not_or] at hother
    simp [readField, hname, hother, readInt32_of_text htext, Except.map]
  -- What is left are the texts.
  all_goals
    intro a e hname htext
    simp [readField, hname, htext]

/-- A record is read as it was written, whatever the names of its fields. -/
theorem readFields_of_showAll {names : FieldNames} (h : names.Distinct) {r : Record}
    {space : Option String} {e : Element} (he : ShowAll space (fieldMarkup names r) e.children) :
    readFields names e = .ok r.clean := by
  rw [readFields, foldlM_of_sets (sets_settings h r) he]
  rfl

end Record

end VideoCatalog
