import VideoCatalog.Proofs.Json.Compact
import VideoCatalog.Proofs.Json.Parts

/-!
# A record as JSON comes back as it is

A record is written by one table of members and read by another, and so are its variants. They fit
together: every record is read back from its one line of JSON (`readsBack`), so nothing is lost by
writing whatever a text was read as (`json_round_trips`).

What a text is read as does not depend on the order of its members nor on members of other names:
`IsRead` says of each field alone that it is what the one member of its name says, or the default if
there is none. The items of `medias` are read in the same way, each by its own members.
-/

namespace VideoCatalog

open Json.Reader

/-! ## Variants -/

namespace Media

/-- The names of the members of a variant, in the order in which they are written. -/
def memberNames : List String :=
  ["url", "data_size", "quality", "extension", "type", "duration"]

/-- The names of the members that are written: all but an unknown duration. -/
def writtenNames (m : Media) : List String :=
  if m.duration.isSome then memberNames else memberNames.erase "duration"

/-- The variant says what these members say, and has its defaults where they say nothing. -/
structure IsRead (ms : List (String × List Char)) (m : Media) : Prop where
  url : Member ms "url" (Reads string) "" m.url
  dataSize : Member ms "data_size" (Reads int64) 0 m.dataSize
  quality : Member ms "quality" (Reads string) "" m.quality
  extension : Member ms "extension" (Reads string) "" m.extension
  kind : Member ms "type" (Reads string) "" m.kind
  duration : Member ms "duration" (Reads (optional int32)) none m.duration

theorem separate_fields : Separate fields where
  nodup := by decide
  spanning := by
    simp only [fields, List.forall_mem_cons, List.not_mem_nil, false_implies, implies_true,
      and_true]
    exact ⟨spanning_string.field _ _, spanning_int64.field _ _, spanning_string.field _ _,
      spanning_string.field _ _, spanning_string.field _ _, spanning_int32.optional.field _ _⟩

theorem isRead_of_applies {ms : List (String × List Char)} {m : Media}
    (h : Applies fields [] {} ms m) : m.IsRead ms where
  url := h.member Media.url rfl (fun _ _ => rfl) (by simp [fields]) List.not_mem_nil
  dataSize := h.member Media.dataSize rfl (fun _ _ => rfl) (by simp [fields]) List.not_mem_nil
  quality := h.member Media.quality rfl (fun _ _ => rfl) (by simp [fields]) List.not_mem_nil
  extension := h.member Media.extension rfl (fun _ _ => rfl) (by simp [fields]) List.not_mem_nil
  kind := h.member Media.kind rfl (fun _ _ => rfl) (by simp [fields]) List.not_mem_nil
  duration := h.member Media.duration rfl (fun _ _ => rfl) (by simp [fields]) List.not_mem_nil

/-- The variant is what its text says, whatever else the text says. -/
theorem isRead_of_reads {value : List Char} {m : Media} (h : Reads (record fields {}) value m) :
    ∃ ms, Reads (parts memberNames) value ms ∧ m.IsRead ms := by
  obtain ⟨rest, h⟩ := h
  obtain ⟨ms, hparts, happlies⟩ := separate_fields.parts_of_record h
  exact ⟨ms, ⟨rest, hparts⟩, isRead_of_applies happlies⟩

/-- The members that are written, each with its value. -/
theorem exists_readsMembers (m : Media) : ∃ ms, m.toJson = .object ms ∧
    ms.map Prod.fst = m.writtenNames ∧ ReadsMembers fields [] {} ms m := by
  obtain ⟨url, dataSize, quality, extension, kind, duration⟩ := m
  refine ⟨_, rfl, ?_, ?_⟩
  · cases duration with
    | none => rfl
    | some d => rfl
  · refine .cons rfl (by decide) (readsBack_field (readsBack_string url) _ _) ?_
    refine .cons rfl (by decide) (readsBack_field (readsBack_int64 dataSize) _ _) ?_
    refine .cons rfl (by decide) (readsBack_field (readsBack_string quality) _ _) ?_
    refine .cons rfl (by decide) (readsBack_field (readsBack_string extension) _ _) ?_
    refine .cons rfl (by decide) (readsBack_field (readsBack_string kind) _ _) ?_
    cases duration with
    | none => exact .nil
    | some d => exact .cons rfl (by decide) (readsBack_field (readsBack_optional_int32 d) _ _) .nil

theorem readsBack (m : Media) : ReadsBack (record fields {}) m.toJson m := by
  obtain ⟨ms, hjson, -, hmembers⟩ := m.exists_readsMembers
  rw [hjson]
  exact readsBack_record hmembers

/-- An unknown duration is not written. -/
theorem parts_written (m : Media) : ∃ ms, read (parts memberNames) m.toJson.compact = .ok ms ∧
    ms.map Prod.fst = m.writtenNames := by
  obtain ⟨members, hjson, hnames, hmembers⟩ := m.exists_readsMembers
  obtain ⟨ms, hparts, hfound⟩ := separate_fields.parts_compact hmembers memberNames
  rw [hjson]
  exact ⟨ms, hparts, hfound.trans hnames⟩

end Media

/-- The text is an array of variants, and these are what its items say. -/
def Media.AreRead (value : List Char) (medias : List Media) : Prop :=
  ∃ items, Reads (list raw) value items ∧
    List.Forall₂ (fun item m => ∃ ms, Reads (parts memberNames) item ms ∧ m.IsRead ms) items medias

theorem Media.areRead_of_reads {value : List Char} {medias : List Media}
    (h : Reads (list (record fields {})) value medias) : AreRead value medias := by
  obtain ⟨rest, h⟩ := h
  obtain ⟨items, hitems, hmedias⟩ := list_raw (separate_fields.spanning_record {}) h
  exact ⟨items, ⟨rest, hitems⟩, hmedias.imp fun _ _ => isRead_of_reads⟩

/-! ## Records -/

namespace Record

/-- The names of the members of a record, in the order in which they are written. -/
def memberNames : List String :=
  ["id", "url", "source", "unique_id", "author", "title", "thumbnail", "duration", "medias", "type",
    "error", "time_end"]

/-- The record says what these members say, and has its defaults where they say nothing. -/
structure IsRead (ms : List (String × List Char)) (r : Record) : Prop where
  id : Member ms "id" (Reads int64) 0 r.id
  url : Member ms "url" (Reads string) "" r.url
  source : Member ms "source" (Reads string) "" r.source
  uniqueId : Member ms "unique_id" (Reads string) "" r.uniqueId
  author : Member ms "author" (Reads string) "" r.author
  title : Member ms "title" (Reads string) "" r.title
  thumbnail : Member ms "thumbnail" (Reads string) "" r.thumbnail
  duration : Member ms "duration" (Reads int32) 0 r.duration
  medias : Member ms "medias" Media.AreRead [] r.medias
  kind : Member ms "type" (Reads string) "" r.kind
  error : Member ms "error" (Reads truth) false r.error
  timeEnd : Member ms "time_end" (Reads int32) 0 r.timeEnd

theorem separate_fields : Separate fields where
  nodup := by decide
  spanning := by
    have hmedias := (Media.separate_fields.spanning_record {}).list
    simp only [fields, List.forall_mem_cons, List.not_mem_nil, false_implies, implies_true,
      and_true]
    exact ⟨spanning_int64.field _ _, spanning_string.field _ _, spanning_string.field _ _,
      spanning_string.field _ _, spanning_string.field _ _, spanning_string.field _ _,
      spanning_string.field _ _, spanning_int32.field _ _, hmedias.field _ _,
      spanning_string.field _ _, spanning_truth.field _ _, spanning_int32.field _ _⟩

theorem isRead_of_applies {ms : List (String × List Char)} {r : Record}
    (h : Applies fields [] {} ms r) : r.IsRead ms where
  id := h.member Record.id rfl (fun _ _ => rfl) (by simp [fields]) List.not_mem_nil
  url := h.member Record.url rfl (fun _ _ => rfl) (by simp [fields]) List.not_mem_nil
  source := h.member Record.source rfl (fun _ _ => rfl) (by simp [fields]) List.not_mem_nil
  uniqueId := h.member Record.uniqueId rfl (fun _ _ => rfl) (by simp [fields]) List.not_mem_nil
  author := h.member Record.author rfl (fun _ _ => rfl) (by simp [fields]) List.not_mem_nil
  title := h.member Record.title rfl (fun _ _ => rfl) (by simp [fields]) List.not_mem_nil
  thumbnail := h.member Record.thumbnail rfl (fun _ _ => rfl) (by simp [fields]) List.not_mem_nil
  duration := h.member Record.duration rfl (fun _ _ => rfl) (by simp [fields]) List.not_mem_nil
  medias := (h.member Record.medias rfl (fun _ _ => rfl) (by simp [fields]) List.not_mem_nil).mono
    fun _ _ => Media.areRead_of_reads
  kind := h.member Record.kind rfl (fun _ _ => rfl) (by simp [fields]) List.not_mem_nil
  error := h.member Record.error rfl (fun _ _ => rfl) (by simp [fields]) List.not_mem_nil
  timeEnd := h.member Record.timeEnd rfl (fun _ _ => rfl) (by simp [fields]) List.not_mem_nil

/-- The record is what its text says, whatever else the text says. -/
theorem isRead_of_ofJsonText {text : String} {r : Record} (h : ofJsonText text = .ok r) :
    ∃ ms, read (parts memberNames) text = .ok ms ∧ r.IsRead ms := by
  obtain ⟨ms, hparts, happlies⟩ := separate_fields.parts_of_read h
  exact ⟨ms, hparts, isRead_of_applies happlies⟩

theorem exists_readsMembers (r : Record) : ∃ ms, r.toJson = .object ms ∧
    ms.map Prod.fst = memberNames ∧ ReadsMembers fields [] {} ms r := by
  obtain ⟨id, url, source, uniqueId, author, title, thumbnail, duration, medias, kind, error,
    timeEnd⟩ := r
  have hmedias := readsBack_list (fun m (_ : m ∈ medias) => m.readsBack)
  refine ⟨_, rfl, rfl, ?_⟩
  refine .cons rfl (by decide) (readsBack_field (readsBack_int64 id) _ _) ?_
  refine .cons rfl (by decide) (readsBack_field (readsBack_string url) _ _) ?_
  refine .cons rfl (by decide) (readsBack_field (readsBack_string source) _ _) ?_
  refine .cons rfl (by decide) (readsBack_field (readsBack_string uniqueId) _ _) ?_
  refine .cons rfl (by decide) (readsBack_field (readsBack_string author) _ _) ?_
  refine .cons rfl (by decide) (readsBack_field (readsBack_string title) _ _) ?_
  refine .cons rfl (by decide) (readsBack_field (readsBack_string thumbnail) _ _) ?_
  refine .cons rfl (by decide) (readsBack_field (readsBack_int32 duration) _ _) ?_
  refine .cons rfl (by decide) (readsBack_field hmedias _ _) ?_
  refine .cons rfl (by decide) (readsBack_field (readsBack_string kind) _ _) ?_
  refine .cons rfl (by decide) (readsBack_field (readsBack_truth error) _ _) ?_
  exact .cons rfl (by decide) (readsBack_field (readsBack_int32 timeEnd) _ _) .nil

theorem readsBack (r : Record) : ReadsBack (record fields {}) r.toJson r := by
  obtain ⟨ms, hjson, -, hmembers⟩ := r.exists_readsMembers
  rw [hjson]
  exact readsBack_record hmembers

/-- A record is written with all of its members. -/
theorem parts_written (r : Record) : ∃ ms, read (parts memberNames) r.toJson.compact = .ok ms ∧
    ms.map Prod.fst = memberNames := by
  obtain ⟨members, hjson, hnames, hmembers⟩ := r.exists_readsMembers
  obtain ⟨ms, hparts, hfound⟩ := separate_fields.parts_compact hmembers memberNames
  rw [hjson]
  exact ⟨ms, hparts, hfound.trans hnames⟩

/-- **A record as JSON comes back as it is.** Every record is written with all of its members and
each variant with all but an unknown duration, and what is written is read as the same record.
Whatever other text is read as a record says what that record is, member by member, and the record
comes back from its own line as well. -/
theorem json_round_trips :
    (∀ r : Record, ofJsonText r.toJson.compact = .ok r ∧
      ∃ ms, read (parts memberNames) r.toJson.compact = .ok ms ∧ ms.map Prod.fst = memberNames) ∧
    (∀ m : Media, ∃ ms, read (parts Media.memberNames) m.toJson.compact = .ok ms ∧
      ms.map Prod.fst = m.writtenNames) ∧
    ∀ (text : String) (r : Record), ofJsonText text = .ok r →
      ofJsonText r.toJson.compact = .ok r ∧
        ∃ ms, read (parts memberNames) text = .ok ms ∧ r.IsRead ms := by
  have hback : ∀ r : Record, ofJsonText r.toJson.compact = .ok r :=
    fun r => read_compact r.readsBack
  refine ⟨fun r => ⟨hback r, r.parts_written⟩, Media.parts_written, fun text r h => ⟨hback r, ?_⟩⟩
  exact isRead_of_ofJsonText h

/-- A text as a person may write it: in an order of its own, with blanks and escapes, a member that
is no record's, a variant with only two members and one that is an array. -/
def handwritten : String :=
  "\x7b \"title\" : \"caf\\u00e9 \\ud83c\\udf3b\", \"rating\": \x7b\"stars\": [4.5, null]\x7d,\n" ++
    "\"medias\": [\x7b\"duration\": 12, \"type\": \"video\"\x7d, [\"a\\/b\", -7]],\t\"id\": 9\x7d "

/-- The record that it holds. -/
def transcribed : Record :=
  { id := 9, title := "café 🌻",
    medias := [{ kind := "video", duration := some 12 }, { url := "a/b", dataSize := -7 }] }

theorem json_round_trips_handwritten :
    ofJsonText handwritten = .ok transcribed ∧
      ofJsonText transcribed.toJson.compact = .ok transcribed ∧
      ∃ ms, read (parts memberNames) handwritten = .ok ms ∧ transcribed.IsRead ms := by
  have hread : ofJsonText handwritten = .ok transcribed := by decide +kernel
  exact ⟨hread, json_round_trips.2.2 handwritten transcribed hread⟩

end Record

end VideoCatalog
