import VideoCatalog.Engine.Structural
import VideoCatalog.Proofs.Record.Fields
import VideoCatalog.Proofs.Xml.Parsing

/-!
# Documents are read as they were written

The writer of records and their reader are apart, each with its own order and its own tables of
names. Through any engine that parses what was written (`Backend.Reads`) they fit together: an
external document, an internal one and each entry of a snapshot read as the record that was written,
clean and otherwise unchanged, and a snapshot has one entry for each record and nothing else
(`round_trips`).

No text of a record can break this, since none can end the element that it stands in. A record whose
texts a document can hold comes back as it is.
-/

namespace VideoCatalog

open Xml (Element Markup ShowAll Shows)

/-! ## What is written is proper -/

theorem Xml.Markup.IsProper.leaf {name value : String} (h : Xml.isPlainName name = true) :
    (Markup.leaf name value).IsProper :=
  h

theorem Media.isProper_markup {names : FieldNames} (h : Xml.isPlainName names.dataSize = true)
    (m : Media) : (markup names m).IsProper := by
  refine ⟨by decide, by simp, ?_⟩
  cases m.duration with
  | none =>
      exact ⟨.leaf (by decide), .leaf h, .leaf (by decide), .leaf (by decide), .leaf (by decide),
        trivial⟩
  | some d =>
      exact ⟨.leaf (by decide), .leaf h, .leaf (by decide), .leaf (by decide), .leaf (by decide),
        .leaf (by decide), trivial⟩

theorem Record.areProper_mediaMarkup {names : FieldNames}
    (h : Xml.isPlainName names.dataSize = true) :
    ∀ ms : List Media, Markup.AreProper (ms.map (Media.markup names))
  | [] => trivial
  | m :: ms => ⟨m.isProper_markup h, areProper_mediaMarkup h ms⟩

theorem Record.isProper_mediasMarkup {names : FieldNames}
    (h : Xml.isPlainName names.dataSize = true) (ms : List Media) :
    (mediasMarkup names ms).IsProper := by
  cases ms with
  | nil => exact (by decide : Xml.isPlainName "medias" = true)
  | cons m ms => exact ⟨by decide, by simp, areProper_mediaMarkup h (m :: ms)⟩

/-- The names of the fields are names. -/
structure FieldNames.Plain (names : FieldNames) : Prop where
  uniqueId : Xml.isPlainName names.uniqueId = true
  timeEnd : Xml.isPlainName names.timeEnd = true
  dataSize : Xml.isPlainName names.dataSize = true

theorem FieldNames.Plain.external : FieldNames.external.Plain where
  uniqueId := by decide
  timeEnd := by decide
  dataSize := by decide

theorem FieldNames.Plain.internal : FieldNames.internal.Plain where
  uniqueId := by decide
  timeEnd := by decide
  dataSize := by decide

theorem Record.areProper_fieldMarkup {names : FieldNames} (h : names.Plain) (r : Record) :
    Markup.AreProper (fieldMarkup names r) :=
  ⟨.leaf (by decide), .leaf (by decide), .leaf (by decide), .leaf h.uniqueId, .leaf (by decide),
    .leaf (by decide), .leaf (by decide), .leaf (by decide),
    isProper_mediasMarkup h.dataSize r.medias, .leaf (by decide), .leaf (by decide),
    .leaf h.timeEnd, trivial⟩

theorem isPlainUri_videoNamespace : Markup.IsPlainUri videoNamespace := by
  have hplain : videoNamespace.toList.all
      (fun c => Xml.isXmlChar c = true ∧ c ≠ '\t' ∧ c ≠ '\n') = true := by decide
  exact ⟨by decide, fun c hc => of_decide_eq_true (List.all_eq_true.mp hplain c hc)⟩

theorem Record.isProper_markup (r : Record) : r.markup.IsProper :=
  ⟨by decide, by simp, areProper_fieldMarkup .external r⟩

theorem Video.isProper_markup {uri : Option String} (h : ∀ u, uri = some u → Markup.IsPlainUri u)
    (v : Video) : (markup uri v).IsProper :=
  ⟨by decide, h, Record.areProper_fieldMarkup .internal v.fields⟩

theorem Video.areProper_entries :
    ∀ records : List Record, Markup.AreProper (records.map (fun r => markup none (ofRecord r)))
  | [] => trivial
  | r :: records => ⟨isProper_markup (by simp) (ofRecord r), areProper_entries records⟩

theorem Video.isProper_snapshotMarkup (records : List Record) :
    (snapshotMarkup records).IsProper := by
  refine ⟨by decide, ?_, areProper_entries records⟩
  rintro u ⟨⟩
  exact isPlainUri_videoNamespace

/-! ## What an element that shows a record reads as -/

theorem Xml.Bears.isIn {uri name : String} {e : Element} (h : Bears (some uri) name e) :
    e.isIn uri name = true := by
  simp [Element.isIn, h.name, h.space]

theorem Record.ofElement_of_shows {r : Record} {e : Element} (h : Shows none r.markup e) :
    ofElement e = .ok r.clean := by
  obtain ⟨hbears, -, hchildren⟩ := h
  have huri : e.uri.isNone = true := by
    rw [hbears.space]
    rfl
  have hname : e.name = "item" := hbears.name
  simp [ofElement, hname, huri, readFields_of_showAll .external hchildren]

/-- The element is an internal document of the catalogue, and leads back to this record. -/
def Video.LeadsTo (r : Record) (e : Element) : Prop :=
  e.isIn videoNamespace "video" = true ∧
    ∃ v, ofElement e = .ok v ∧ v.toRecord = .ok r

theorem Video.leadsTo_of_shows {space uri : Option String}
    (h : Xml.spaceInside space uri = some videoNamespace) {r : Record} {e : Element}
    (he : Shows space (markup uri (ofRecord r)) e) : LeadsTo r.clean e := by
  obtain ⟨hbears, -, hchildren⟩ := he
  rw [h] at hbears hchildren
  have hname : e.name = "video" := hbears.name
  have huri : e.uri = some videoNamespace := hbears.space
  have hfields : Record.readFields .internal e = .ok r.clean :=
    Record.readFields_of_showAll .internal hchildren
  refine ⟨hbears.isIn, { uri := videoNamespace, fields := r.clean }, ?_, ?_⟩
  · simp [ofElement, hname, huri, hfields, Except.map]
  · simp [toRecord]

/-- Each part that something is written as has its element. -/
theorem Xml.ShowAll.forall₂ {α : Type} {write : α → Markup} {space : Option String} :
    ∀ {as : List α} {es : List Element}, ShowAll space (as.map write) es →
      List.Forall₂ (fun a e => Shows space (write a) e) as es
  | [], [], _ => .nil
  | _ :: _, _ :: _, ⟨he, hes⟩ => .cons he hes.forall₂

/-! ## Whole documents -/

variable {G : Type}

theorem Record.read_toXml {b : Backend G} {r : Record} (h : b.Reads r.toXml) :
    ∃ d root, b.document r.toXml = .ok d ∧ d.root = some root ∧ ofElement root = .ok r.clean := by
  obtain ⟨d, root, hdocument, hroot, hshows⟩ := h.document r.isProper_markup
  exact ⟨d, root, hdocument, hroot, ofElement_of_shows hshows⟩

theorem Video.read_toXml {b : Backend G} {r : Record} (h : b.Reads (ofRecord r).toXml) :
    ∃ d root, b.document (ofRecord r).toXml = .ok d ∧ d.root = some root ∧
      LeadsTo r.clean root := by
  have hproper : (markup (some videoNamespace) (ofRecord r)).IsProper := by
    refine isProper_markup ?_ (ofRecord r)
    rintro u ⟨⟩
    exact isPlainUri_videoNamespace
  obtain ⟨d, root, hdocument, hroot, hshows⟩ := h.document hproper
  exact ⟨d, root, hdocument, hroot, leadsTo_of_shows rfl hshows⟩

/-- The snapshot that is found again has one entry for each record, and the entry shows the record.
-/
theorem Video.shows_snapshot {b : Backend G} {records : List Record}
    (h : b.Reads (snapshot records)) :
    ∃ d root, b.document (snapshot records) = .ok d ∧ d.root = some root ∧
      root.isIn videoNamespace "videos" = true ∧
      List.Forall₂ (fun r e => Shows (some videoNamespace) (markup none (ofRecord r)) e) records
        root.children := by
  obtain ⟨d, root, hdocument, hroot, hbears, -, hchildren⟩ :=
    h.document (isProper_snapshotMarkup records)
  exact ⟨d, root, hdocument, hroot, hbears.isIn, hchildren.forall₂⟩

theorem Video.read_snapshot {b : Backend G} {records : List Record}
    (h : b.Reads (snapshot records)) :
    ∃ d root, b.document (snapshot records) = .ok d ∧ d.root = some root ∧
      root.isIn videoNamespace "videos" = true ∧
      List.Forall₂ LeadsTo (records.map Record.clean) root.children := by
  obtain ⟨d, root, hdocument, hroot, hisIn, hentries⟩ := shows_snapshot h
  refine ⟨d, root, hdocument, hroot, hisIn, ?_⟩
  rw [List.forall₂_map_left_iff]
  exact hentries.imp fun r e he => leadsTo_of_shows rfl he

/-- **Round trip**: through an engine that parses what was written, every record comes back clean
from its external document and from its internal one, and so does each record of a collection from
its own entry of the snapshot, in order; a record that documents can hold is clean as it is. -/
theorem Record.round_trips (b : Backend G) (r : Record) (records : List Record) :
    (b.Reads r.toXml →
      ∃ d root, b.document r.toXml = .ok d ∧ d.root = some root ∧ ofElement root = .ok r.clean) ∧
    (b.Reads (Video.ofRecord r).toXml →
      ∃ d root v, b.document (Video.ofRecord r).toXml = .ok d ∧ d.root = some root ∧
        Video.ofElement root = .ok v ∧ v.toRecord = .ok r.clean) ∧
    (b.Reads (Video.snapshot records) →
      ∃ d root, b.document (Video.snapshot records) = .ok d ∧ d.root = some root ∧
        root.isIn videoNamespace "videos" = true ∧
        List.Forall₂ Video.LeadsTo (records.map clean) root.children) ∧
    (r.IsXml → r.clean = r) := by
  refine ⟨fun h => read_toXml h, fun h => ?_, fun h => Video.read_snapshot h, clean_of_isXml⟩
  obtain ⟨d, root, hdocument, hroot, -, v, hread, hrecord⟩ := Video.read_toXml h
  exact ⟨d, root, v, hdocument, hroot, hread, hrecord⟩

theorem Structural.reads {text : String} (hsize : text.utf8ByteSize ≤ Backend.sizeLimit) :
    backend.Reads text := by
  intro root hroot
  have hparse : ∃ d, Xml.Document.ofText? text = .ok d ∧ d.root = some root := by
    rw [Xml.Document.ofText?, hroot]
    exact ⟨_, rfl, rfl⟩
  obtain ⟨d, hd, hdroot⟩ := hparse
  have hparsed : backend.parse text = .document d := by
    show parse text = _
    rw [parse, hd]
  refine ⟨d, root, ?_, hdroot, rfl⟩
  rw [Backend.document, if_neg (Nat.not_lt.mpr hsize), hparsed]

namespace Record.Awkward

/-- A record whose texts hold markup, quotes, line ends and blanks, and whose numbers are extreme.
-/
def carried : Record :=
  { id := Int64.minValue, title := "</title><title> & \"x\" ]]> &amp;", author := "a\r\nb\r \n\t",
    duration := Int32.minValue, error := true, timeEnd := Int32.maxValue,
    medias := [{ dataSize := Int64.maxValue, quality := " " },
      { url := "/?a&b", duration := some 0 }] }

/-- A record with characters that no document can hold. -/
def replaced : Record :=
  { carried with title := "a\u0000b\u001f" }

theorem round_trips_awkward :
    (∃ d root, Structural.backend.document carried.toXml = .ok d ∧ d.root = some root ∧
      ofElement root = .ok carried) ∧
    (∃ d root v, Structural.backend.document (Video.ofRecord carried).toXml = .ok d ∧
      d.root = some root ∧ Video.ofElement root = .ok v ∧ v.toRecord = .ok carried) ∧
    (∃ d root, Structural.backend.document (Video.snapshot [replaced, carried]) = .ok d ∧
      d.root = some root ∧ root.isIn videoNamespace "videos" = true ∧
      List.Forall₂ Video.LeadsTo [{ replaced with title := "a\ufffdb\ufffd" }, carried]
        root.children) := by
  obtain ⟨hrecord, hvideo, hsnapshot, hsame⟩ :=
    round_trips Structural.backend carried [replaced, carried]
  have hxml : ∀ s ∈ carried.texts, s.toList.all Xml.isXmlChar = true := by decide
  have hcarried : carried.clean = carried := hsame fun s hs => List.all_eq_true.mp (hxml s hs)
  have hcleans : [replaced, carried].map clean =
      [{ replaced with title := "a\ufffdb\ufffd" }, carried] := by decide
  rw [hcarried] at hrecord hvideo
  rw [hcleans] at hsnapshot
  exact ⟨hrecord (Structural.reads (by decide +kernel)),
    hvideo (Structural.reads (by decide +kernel)),
    hsnapshot (Structural.reads (by decide +kernel))⟩

end Record.Awkward

end VideoCatalog
