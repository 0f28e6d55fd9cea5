import VideoCatalog.Proofs.Search.Filter

/-!
# An answer is all or nothing, and positional

What a search makes of the nodes that the engine selects, whatever these are: in any order,
repeated, nested in one another, elements or not, in a document that need not be the one that was
written.

A selected element is an answer only for the record at its own position (`LeadsBack`). Each is
looked at by itself (`readBack_cases`), so either all of them are answers, and the records come in
the order of the elements, or the search fails and names exactly those that are not
(`answer_is_all_or_nothing`).
-/

namespace VideoCatalog

open Xml (Cursor Document Element)

variable {G : Type}

namespace Search

/-! ## One element -/

/-- The element is the child of the root at the position of the record, and it is a readable
document of the catalogue. -/
structure LeadsBack (collection : List Record) (root : Element) (c : Cursor) (r : Record) :
    Prop where
  position : ∃ i, c.path = [i] ∧ root.children[i]? = some c.element ∧ collection[i]? = some r
  isIn : c.element.isIn videoNamespace "video" = true
  readable : ∃ read, Record.readFields .internal c.element = .ok read

/-- What is wrong with an element that is not an answer. -/
inductive Fault (collection : List Record) (c : Cursor) : String → Prop
  | stray : (∀ i r, c.path = [i] → collection[i]? ≠ some r) →
      Fault collection c "match is not an entry of the snapshot"
  | unreadable {e : ReadError} : Video.ofElement c.element = .error e → Fault collection c e.message
  | foreign {v : Video} {e : Video.Foreign} : Video.ofElement c.element = .ok v →
      v.toRecord = .error e → Fault collection c e.message

/-- The entry of an error that names an element and what is wrong with it. -/
def Complains (collection : List Record) (c : Cursor) (entry : String) : Prop :=
  ∃ why, Fault collection c why ∧ entry = "line " ++ toString c.element.line ++ ": " ++ why

section Element

variable {collection : List Record} {c : Cursor} {r : Record}

theorem stored?_eq_some_iff :
    stored? collection c = some r ↔ ∃ i, c.path = [i] ∧ collection[i]? = some r := by
  unfold stored?
  constructor
  · intro h
    split at h
    case h_1 i hpath => exact ⟨i, hpath, h⟩
    case h_2 => cases h
  · rintro ⟨i, hpath, hi⟩
    rw [hpath]
    exact hi

/-- An element is read as a document of the catalogue exactly if it has the right name, is in the
right namespace and its fields can be read. -/
theorem exists_toRecord_iff {e : Element} :
    (∃ v r, Video.ofElement e = .ok v ∧ v.toRecord = .ok r) ↔
      e.isIn videoNamespace "video" = true ∧
        ∃ read, Record.readFields .internal e = .ok read := by
  rw [Element.isIn, Bool.and_eq_true, beq_iff_eq, beq_iff_eq]
  constructor
  · rintro ⟨v, r, hread, hrecord⟩
    unfold Video.ofElement at hread
    split at hread
    case isFalse => cases hread
    case isTrue hname =>
      cases hfields : Record.readFields .internal e with
      | error fault =>
          rw [hfields] at hread
          cases hread
      | ok read =>
          rw [hfields] at hread
          cases hread
          unfold Video.toRecord at hrecord
          split at hrecord
          case isFalse => cases hrecord
          case isTrue huri =>
            refine ⟨⟨?_, hname⟩, read, rfl⟩
            -- No namespace counts as the empty one, which is not that of the catalogue.
            cases hspace : e.uri with
            | none =>
                rw [hspace] at huri
                have hempty : "" = videoNamespace := huri
                exact absurd hempty (by decide)
            | some uri =>
                rw [hspace] at huri
                exact congrArg some huri
  · rintro ⟨⟨huri, hname⟩, read, hfields⟩
    refine ⟨{ uri := videoNamespace, fields := read }, read, ?_, ?_⟩
    · rw [Video.ofElement, if_pos hname, hfields, huri]
      rfl
    · exact if_pos rfl

/-- An element is read back as the record at its position, or it is named and what is wrong with it
is said. -/
theorem readBack_cases (collection : List Record) (c : Cursor) :
    (∃ r, stored? collection c = some r ∧
        (∃ v r', Video.ofElement c.element = .ok v ∧ v.toRecord = .ok r') ∧
        readBack collection c = .ok r) ∨
      (∃ entry, Complains collection c entry ∧ readBack collection c = .error entry) := by
  unfold readBack
  cases hstored : stored? collection c with
  | none =>
      refine .inr ⟨_, ⟨_, .stray ?_, rfl⟩, rfl⟩
      intro i r hpath hi
      have hsome := stored?_eq_some_iff.mpr ⟨i, hpath, hi⟩
      rw [hstored] at hsome
      cases hsome
  | some r =>
      cases hread : Video.ofElement c.element with
      | error e => exact .inr ⟨_, ⟨_, .unreadable hread, rfl⟩, rfl⟩
      | ok v =>
          cases hrecord : v.toRecord with
          | error e => exact .inr ⟨_, ⟨_, .foreign hread hrecord, rfl⟩, by simp only [hrecord]⟩
          | ok r' => exact .inl ⟨r, rfl, ⟨v, r', rfl, hrecord⟩, by simp only [hrecord]⟩

end Element

section Answers

variable {b : Backend G} {collection : List Record} {term : String} {d : Document} {root : Element}
  {nodes : List QueryNode}

/-- An element of the document is read back as a record exactly if it leads back to it. -/
theorem readBack_eq_ok_iff (hroot : d.root = some root) {c : Cursor} {r : Record}
    (hfound : d.Holds c) : readBack collection c = .ok r ↔ LeadsBack collection root c r := by
  constructor
  · intro hback
    obtain ⟨r', hstored, hread, hok⟩ | ⟨entry, -, herror⟩ := readBack_cases collection c
    · rw [hback] at hok
      cases hok
      obtain ⟨i, hpath, hi⟩ := stored?_eq_some_iff.mp hstored
      obtain ⟨hisIn, hreadable⟩ := exists_toRecord_iff.mp hread
      rw [Document.Holds, hpath] at hfound
      exact ⟨⟨i, hpath, Document.getElem?_children_of_at? hroot hfound, hi⟩, hisIn, hreadable⟩
    · rw [hback] at herror
      cases herror
  · rintro ⟨⟨i, hpath, -, hi⟩, hisIn, hreadable⟩
    have hstored := stored?_eq_some_iff.mpr ⟨i, hpath, hi⟩
    obtain ⟨v, r', hread, hrecord⟩ := exists_toRecord_iff.mpr ⟨hisIn, hreadable⟩
    unfold readBack
    simp [hstored, hread, hrecord]

/-- The selected elements are elements of the document. -/
theorem holds_of_mem_selected {c : Cursor} (h : c ∈ nodes.filterMap (Query.elementOf? d)) :
    d.Holds c := by
  obtain ⟨node, -, hnode⟩ := List.mem_filterMap.mp h
  cases node with
  | other => cases hnode
  | element path =>
      have hpath := Document.path_of_at? hnode
      rw [Document.Holds, hpath]
      exact hnode

/-! ## All elements -/

theorem readBackAll_of_faults_eq_nil {entries : List Cursor}
    (h : faults (entries.map (readBack collection)) = []) :
    readBackAll collection entries = .ok (records (entries.map (readBack collection))) := by
  simp only [readBackAll, h, List.isEmpty_nil, if_true]

theorem readBackAll_of_faults_ne_nil {entries : List Cursor}
    (h : faults (entries.map (readBack collection)) ≠ []) :
    readBackAll collection entries =
      .error (.snapshot (Text.joinWith "; " (faults (entries.map (readBack collection))))) := by
  unfold readBackAll
  exact if_neg fun hempty => h (List.isEmpty_iff.mp hempty)

/-- Elements that lead back to records are read back as these, in order. -/
theorem readBackAll_of_forall₂ (hroot : d.root = some root) {entries : List Cursor}
    {rs : List Record} (hheld : ∀ c ∈ entries, d.Holds c)
    (h : List.Forall₂ (LeadsBack collection root) entries rs) :
    readBackAll collection entries = .ok rs := by
  have hmap : entries.map (readBack collection) = rs.map .ok := by
    induction h with
    | nil => rfl
    | cons hr _ ih =>
        obtain ⟨hc, hentries⟩ := List.forall_mem_cons.mp hheld
        rw [List.map_cons, List.map_cons, (readBack_eq_ok_iff hroot hc).mpr hr, ih hentries]
  simp only [readBackAll, hmap, faults_map_ok, records_map_ok, List.isEmpty_nil, if_true]

/-- Without a fault, each element leads back to the record that is returned for it. -/
theorem forall₂_leadsBack (hroot : d.root = some root) {entries : List Cursor}
    (hheld : ∀ c ∈ entries, d.Holds c) (h : faults (entries.map (readBack collection)) = []) :
    List.Forall₂ (LeadsBack collection root) entries
      (records (entries.map (readBack collection))) := by
  induction entries with
  | nil => exact .nil
  | cons c entries ih =>
      obtain ⟨hc, hentries⟩ := List.forall_mem_cons.mp hheld
      cases hback : readBack collection c with
      | error entry =>
          rw [List.map_cons, hback] at h
          cases h
      | ok r =>
          rw [List.map_cons, hback] at h ⊢
          exact .cons ((readBack_eq_ok_iff hroot hc).mp hback) (ih hentries h)

open Classical in
/-- The faults are those of the elements that do not lead back to a record, one for each. -/
theorem forall₂_complains (hroot : d.root = some root) {entries : List Cursor}
    (hheld : ∀ c ∈ entries, d.Holds c) :
    List.Forall₂ (Complains collection)
      (entries.filter (fun c => ¬∃ r, LeadsBack collection root c r))
      (faults (entries.map (readBack collection))) := by
  induction entries with
  | nil => exact .nil
  | cons c entries ih =>
      obtain ⟨hc, hentries⟩ := List.forall_mem_cons.mp hheld
      obtain ⟨r, -, -, hback⟩ | ⟨entry, hentry, hback⟩ := readBack_cases collection c
      · have hleads : ∃ r, LeadsBack collection root c r :=
          ⟨r, (readBack_eq_ok_iff hroot hc).mp hback⟩
        rw [List.filter_cons_of_neg (by simpa using hleads), List.map_cons, hback]
        exact ih hentries
      · have hastray : ¬∃ r, LeadsBack collection root c r := by
          rintro ⟨r, hr⟩
          rw [← readBack_eq_ok_iff hroot hc, hback] at hr
          cases hr
        rw [List.filter_cons_of_pos (by simpa using hastray), List.map_cons, hback]
        exact .cons hentry (ih hentries)

theorem faults_eq_nil_iff (hroot : d.root = some root) {entries : List Cursor}
    (hheld : ∀ c ∈ entries, d.Holds c) :
    faults (entries.map (readBack collection)) = [] ↔
      ∀ c ∈ entries, ∃ r, LeadsBack collection root c r := by
  classical
  have hfaults : List.Forall₂ (Complains collection) _ _ := forall₂_complains hroot hheld
  constructor
  · intro hnil c hc
    rw [hnil, List.forall₂_nil_right_iff, List.filter_eq_nil_iff] at hfaults
    simpa using hfaults c hc
  · intro hall
    rw [List.filter_eq_nil_iff.mpr fun c hc => by simpa using hall c hc] at hfaults
    exact List.forall₂_nil_left_iff.mp hfaults

open Classical in
/-- **An answer is all or nothing**: whatever the engine selects, a search succeeds exactly if every
selected element is the readable child of the root at the position of a record, and then its result
is the record at the position of each, in the order of the elements. Else it fails, with one entry
for each element that is not, in the same order. -/
theorem answer_is_all_or_nothing (h : b.Selects collection term d nodes)
    (hroot : d.root = some root) (hcollection : collection ≠ [])
    (hterm : Char.ofNat 0 ∉ term.toList) :
    let selected := nodes.filterMap (Query.elementOf? d)
    ((∃ found, (run b collection term).found = .ok found) ↔
      ∀ c ∈ selected, ∃ r, LeadsBack collection root c r) ∧
    (∀ found, (run b collection term).found = .ok found ↔
      List.Forall₂ (LeadsBack collection root) selected found) ∧
    (∀ error, (run b collection term).found = .error error →
      ∃ entries, error = .snapshot (Text.joinWith "; " entries) ∧
        List.Forall₂ (Complains collection)
          (selected.filter (fun c => ¬∃ r, LeadsBack collection root c r)) entries) := by
  intro selected
  have hasked : (collection.isEmpty || term.toList.contains (Char.ofNat 0)) = false := by
    simpa using ⟨hcollection, hterm⟩
  have hfound : (run b collection term).found = readBackAll collection selected := by
    simp only [run, hasked, inSnapshot_of_selects h hroot hterm, Bool.false_eq_true, if_false]
    rfl
  have hheld : ∀ c ∈ selected, d.Holds c := fun _ hc => holds_of_mem_selected hc
  rw [hfound, ← faults_eq_nil_iff hroot hheld]
  refine ⟨⟨?_, ?_⟩, fun found => ⟨?_, readBackAll_of_forall₂ hroot hheld⟩, ?_⟩
  · rintro ⟨found, hok⟩
    by_contra hnil
    rw [readBackAll_of_faults_ne_nil hnil] at hok
    cases hok
  · intro hnil
    exact ⟨_, readBackAll_of_faults_eq_nil hnil⟩
  · intro hok
    by_cases hnil : faults (selected.map (readBack collection)) = []
    · rw [readBackAll_of_faults_eq_nil hnil] at hok
      cases hok
      exact forall₂_leadsBack hroot hheld hnil
    · rw [readBackAll_of_faults_ne_nil hnil] at hok
      cases hok
  · intro error herror
    by_cases hnil : faults (selected.map (readBack collection)) = []
    · rw [readBackAll_of_faults_eq_nil hnil] at herror
      cases herror
    · rw [readBackAll_of_faults_ne_nil hnil] at herror
      cases herror
      exact ⟨_, rfl, forall₂_complains hroot hheld⟩

end Answers

namespace Unruly

/-- Two records, so two positions. -/
def first : Record :=
  { id := 1 }

def second : Record :=
  { id := 2 }

/-- An element in the namespace of the catalogue. -/
def element (name : String) (line : Nat) (children : List Element) : Element :=
  .mk { name := name, uri := some videoNamespace, line := line } "" children

/-- Two entries, the second one with an element inside, and one that no record stands for. -/
def root : Element :=
  element "videos" 1
    [element "video" 2 [], element "video" 3 [element "title" 4 []], element "video" 5 []]

/-- An engine that parses every text as the same document and selects the same nodes. -/
def backend (nodes : List QueryNode) : Backend Structural.Compiled :=
  { Structural.backend with
    parse := fun _ => .document { root := some root }
    evaluate := fun _ _ _ => .nodes nodes }

theorem selects (nodes : List QueryNode) :
    (backend nodes).Selects [first, second] "x" { root := some root } nodes := by
  have hsize : (Video.snapshot [first, second]).utf8ByteSize ≤ Backend.sizeLimit := by
    decide +kernel
  exact ⟨if_neg (Nat.not_lt.mpr hsize), rfl, rfl, fun _ _ => rfl, rfl⟩

/-- Entries out of order, repeated and among other nodes. -/
def orderly : List QueryNode :=
  [.element [1], .other, .element [0], .element [1]]

/-- The root, what is inside an entry and what lies behind the last record are no entries. -/
def stray : List QueryNode :=
  [.element [], .element [0], .element [1, 0], .element [2]]

theorem leadsBack {i : Nat} {e : Element} {r : Record} {ancestors : List Element}
    (hchild : root.children[i]? = some e) (hi : [first, second][i]? = some r) :
    LeadsBack [first, second] root { element := e, ancestors := ancestors, path := [i] } r := by
  have hreadable : ∀ e ∈ root.children, e.isIn videoNamespace "video" = true ∧
      ∃ read, Record.readFields .internal e = .ok read := by
    simp only [root, element, Element.children, List.forall_mem_cons]
    exact ⟨⟨rfl, _, rfl⟩, ⟨rfl, _, rfl⟩, ⟨rfl, _, rfl⟩, by simp⟩
  obtain ⟨hisIn, hread⟩ := hreadable e (List.mem_of_getElem? hchild)
  exact ⟨⟨i, rfl, hchild, hi⟩, hisIn, hread⟩

theorem not_leadsBack {c : Cursor} (h : c.path ∉ [[0], [1]]) :
    ¬∃ r, LeadsBack [first, second] root c r := by
  rintro ⟨r, ⟨i, hpath, -, hi⟩, -, -⟩
  have hlt : i < 2 := (List.getElem?_eq_some_iff.mp hi).1
  rw [hpath] at h
  simp only [List.mem_cons, List.cons.injEq, List.not_mem_nil, and_true, or_false] at h
  omega

theorem answer_is_all_or_nothing_unruly :
    (run (backend orderly) [first, second] "x").found = .ok [second, first, second] ∧
    ∃ entries, (run (backend stray) [first, second] "x").found =
      .error (.snapshot (Text.joinWith "; " entries)) ∧ entries.length = 3 := by
  have hcollection : [first, second] ≠ [] := List.cons_ne_nil _ _
  have hterm : Char.ofNat 0 ∉ "x".toList := by decide
  constructor
  · obtain ⟨-, hfound, -⟩ := answer_is_all_or_nothing (selects orderly) rfl hcollection hterm
    refine (hfound _).mpr (.cons ?_ (.cons ?_ (.cons ?_ .nil)))
    · exact leadsBack rfl rfl
    · exact leadsBack rfl rfl
    · exact leadsBack rfl rfl
  · obtain ⟨hall, -, herror⟩ := answer_is_all_or_nothing (selects stray) rfl hcollection hterm
    cases hfound : (run (backend stray) [first, second] "x").found with
    | ok found =>
        have hleads := hall.mp ⟨found, hfound⟩ { element := root } List.mem_cons_self
        exact absurd hleads (not_leadsBack (by simp))
    | error error =>
        obtain ⟨entries, rfl, hentries⟩ := herror error hfound
        refine ⟨entries, rfl, ?_⟩
        rw [← hentries.length_eq]
        show (List.filter _ [({ element := root } : Cursor), _, _, _]).length = 3
        rw [List.filter_cons_of_pos (by simpa using not_leadsBack (by simp)),
          List.filter_cons_of_neg (by simpa using ⟨first, leadsBack rfl rfl⟩),
          List.filter_cons_of_pos (by simpa using not_leadsBack (by simp)),
          List.filter_cons_of_pos (by simpa using not_leadsBack (by simp))]
        rfl

end Unruly

end Search

end VideoCatalog
