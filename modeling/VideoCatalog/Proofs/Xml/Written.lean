import VideoCatalog.Proofs.Xml.Parsing

/-!
# Elements as they are written

A `Written` element is what stands in a text: names with their qualifiers, and namespace
declarations among the other attributes. What it means depends on the declarations in force where it
stands, and `resolve` gives the element that it is there.

An element of a document can be written down again (`Element.written`). It is legible if its names
are names and if it is read as itself in the scope in which it stands (`isLegible`,
`resolve_written`). Put into another scope it may become another element, but two things stay: the
attributes without a qualifier (`attribute?_resolve`), and the declarations on the element itself
(`declarations_resolve`).
-/

namespace VideoCatalog.Xml

/-! ## Splitting a name -/

theorem splitName_qualified {q : String} (h : ':' ∉ q.toList) (n : String) :
    splitName (qualified (some q) n) = (some q, n) := by
  have hcolon : ∀ c ∈ q.toList, decide (c ≠ ':') = true := fun c hc =>
    decide_eq_true fun heq => h (heq ▸ hc)
  have hchars : (qualified (some q) n).toList = q.toList ++ ':' :: n.toList := by
    simp [qualified]
  have hdrop : (q.toList ++ ':' :: n.toList).dropWhile (fun c => c ≠ ':') = ':' :: n.toList := by
    rw [List.dropWhile_append_of_pos hcolon, List.dropWhile_cons_of_neg (by simp)]
  have htake : (q.toList ++ ':' :: n.toList).takeWhile (fun c => c ≠ ':') = q.toList := by
    rw [List.takeWhile_append_of_pos hcolon, List.takeWhile_cons_of_neg (by simp), List.append_nil]
  simp only [splitName, hchars, hdrop, htake, String.ofList_toList]

/-- A text with a colon in it is a name behind the qualifier in front of the first one. -/
theorem exists_qualified_of_mem {s : String} (h : ':' ∈ s.toList) :
    ∃ q n, ':' ∉ q.toList ∧ s = qualified (some q) n := by
  obtain ⟨front, back, hsplit, hfront⟩ := List.eq_append_cons_of_mem h
  refine ⟨String.ofList front, String.ofList back, by rwa [String.toList_ofList], ?_⟩
  rw [← String.toList_inj, hsplit]
  simp [qualified]

theorem splitName_eq_some_iff {s q n : String} :
    splitName s = (some q, n) ↔ ':' ∉ q.toList ∧ s = qualified (some q) n := by
  constructor
  · intro h
    by_cases hcolon : ':' ∈ s.toList
    · obtain ⟨q', n', hq', rfl⟩ := exists_qualified_of_mem hcolon
      rw [splitName_qualified hq'] at h
      cases h
      exact ⟨hq', rfl⟩
    · rw [splitName_of_not_mem hcolon] at h
      cases h
  · rintro ⟨hq, rfl⟩
    exact splitName_qualified hq n

theorem splitName_eq_none_iff {s n : String} :
    splitName s = (none, n) ↔ ':' ∉ s.toList ∧ n = s := by
  constructor
  · intro h
    by_cases hcolon : ':' ∈ s.toList
    · obtain ⟨q', n', hq', rfl⟩ := exists_qualified_of_mem hcolon
      rw [splitName_qualified hq'] at h
      cases h
    · rw [splitName_of_not_mem hcolon] at h
      exact ⟨hcolon, (Prod.mk.inj h).2.symm⟩
  · rintro ⟨hcolon, rfl⟩
    exact splitName_of_not_mem hcolon

/-- A name is its qualifier and what follows it. -/
theorem qualified_of_splitName {s n : String} {q : Option String} (h : splitName s = (q, n)) :
    qualified q n = s := by
  cases q with
  | none => exact (splitName_eq_none_iff.mp h).2
  | some q => exact (splitName_eq_some_iff.mp h).2.symm

/-- A qualifier can stand in front of another name. -/
theorem splitName_qualified_of_splitName {s n : String} {q : Option String}
    (h : splitName s = (q, n)) {name : String} (hname : ':' ∉ name.toList) :
    splitName (qualified q name) = (q, name) := by
  cases q with
  | none => exact splitName_of_not_mem hname
  | some q => exact splitName_qualified (splitName_eq_some_iff.mp h).1 name

/-- A qualifier that makes a name with one plain name makes one with any. -/
theorem isName_qualified {q : Option String} {name other : String}
    (h : isName (qualified q name) = true) (hother : isPlainName other = true) :
    isName (qualified q other) = true := by
  cases q with
  | none => exact isName_of_isPlainName hother
  | some q =>
      have hchars : ∀ n : String, (qualified (some q) n).toList = q.toList ++ ':' :: n.toList :=
        fun n => by simp [qualified]
      obtain ⟨⟨c, cs, heq, hstart⟩, hall⟩ := isName_iff.mp h
      rw [hchars] at heq hall
      refine isName_iff.mpr ⟨?_, fun d hd => ?_⟩
      · rw [hchars]
        cases hq : q.toList with
        | nil => exact ⟨':', other.toList, rfl, by decide⟩
        | cons c' cs' =>
            rw [hq] at heq
            obtain rfl := (List.cons.inj heq).1
            exact ⟨c', _, rfl, hstart⟩
      · rw [hchars] at hd
        rcases List.mem_append.mp hd with hd | hd
        · exact hall d (List.mem_append_left _ hd)
        · rcases List.mem_cons.mp hd with rfl | hd
          · decide
          · exact ((isPlainName_iff.mp hother).2 d hd).1

/-! ## Start tags -/

/-- The attribute that makes a declaration. -/
def Declaration.written (d : Declaration) : String × String :=
  (match d.qualifier with
    | some q => "xmlns:" ++ q
    | none => "xmlns",
    d.uri)

/-- An attribute with its name as it is written. -/
def Attribute.written (a : Attribute) : String × String :=
  (qualified (if a.uri.isSome then a.qualifier else none) a.name, a.value)

/-- The name in a start tag. -/
def Tag.writtenName (t : Tag) : String :=
  qualified t.qualifier t.name

/-- What stands in a start tag behind the name, declarations first. -/
def Tag.writtenAttributes (t : Tag) : List (String × String) :=
  t.declarations.map Declaration.written ++ t.attributes.map Attribute.written

theorem declaration?_written (d : Declaration) : declaration? d.written = some d := by
  obtain ⟨qualifier, uri⟩ := d
  cases qualifier with
  | none =>
      have hsplit : splitName "xmlns" = (none, "xmlns") := splitName_of_not_mem (by decide)
      simp [declaration?, Declaration.written, hsplit]
  | some q =>
      have hsplit : splitName ("xmlns:" ++ q) = (some "xmlns", q) := by
        refine splitName_eq_some_iff.mpr ⟨by decide, ?_⟩
        rw [← String.toList_inj]
        simp [qualified]
      simp [declaration?, Declaration.written, hsplit]

theorem filterMap_written (ds : List Declaration) :
    (ds.map Declaration.written).filterMap declaration? = ds := by
  have hsome : declaration? ∘ Declaration.written = some := funext declaration?_written
  rw [List.filterMap_map, hsome, List.filterMap_some]

/-- An attribute is written as it was read, whatever its qualifier stands for. -/
theorem written_readAttribute (scope : List Declaration) (a : String × String) :
    (readAttribute scope a).written = a := by
  obtain ⟨name, value⟩ := a
  rcases hsplit : splitName name with ⟨q, n⟩
  have hname := qualified_of_splitName hsplit
  cases q with
  | none => simpa [readAttribute, hsplit, Attribute.written] using hname
  | some q =>
      cases hlookup : lookup? scope (some q) with
      | none => simp [readAttribute, hsplit, hlookup, Attribute.written, qualified]
      | some uri => simpa [readAttribute, hsplit, hlookup, Attribute.written] using hname

/-- Only attributes without a qualifier are of a plain name. -/
theorem readAttribute_isPlain (scope : List Declaration) (a : String × String) {name : String}
    (h : ':' ∉ name.toList) :
    ((readAttribute scope a).uri.isNone && (readAttribute scope a).name == name) =
      (a.1 == name) := by
  obtain ⟨written, value⟩ := a
  rcases hsplit : splitName written with ⟨q, n⟩
  cases q with
  | none =>
      obtain ⟨-, rfl⟩ := splitName_eq_none_iff.mp hsplit
      simp [readAttribute, hsplit]
  | some q =>
      have hne : written ≠ name := by
        rintro rfl
        rw [splitName_of_not_mem h] at hsplit
        cases hsplit
      cases hlookup : lookup? scope (some q) with
      | none => simp [readAttribute, hsplit, hlookup]
      | some uri => simp [readAttribute, hsplit, hlookup, hne]

section ReadTag

variable (outer : List Declaration) (written : String) (as : List (String × String)) (line : Nat)

theorem readTag_declarations :
    (readTag outer written as line).1.declarations = as.filterMap declaration? := by
  unfold readTag
  dsimp only
  split
  · split <;> rfl
  · rfl

theorem readTag_attributes :
    (readTag outer written as line).1.attributes =
      (as.filter (fun a => (declaration? a).isNone)).map
        (readAttribute (as.filterMap declaration? ++ outer)) := by
  unfold readTag
  dsimp only
  split
  · split <;> rfl
  · rfl

theorem readTag_line : (readTag outer written as line).1.line = line := by
  unfold readTag
  dsimp only
  split
  · split <;> rfl
  · rfl

theorem readTag_scope :
    (readTag outer written as line).2 =
      (readTag outer written as line).1.declarations ++ outer := by
  rw [readTag_declarations]
  rfl

theorem readTag_unlined :
    (readTag outer written as line).1.unlined = (readTag outer written as 1).1 := by
  unfold readTag
  dsimp only
  split
  · split <;> rfl
  · rfl

variable {outer written as line} {q : Option String} {n : String}

/-- Where the qualifier stands for a namespace, the name is in it. -/
theorem readTag_of_lookup {uri : String} (hsplit : splitName written = (q, n))
    (hlookup : lookup? (as.filterMap declaration? ++ outer) q = some uri) :
    (readTag outer written as line).1.name = n ∧
      (readTag outer written as line).1.uri = some uri := by
  cases q with
  | none => simp [readTag, hsplit, hlookup]
  | some q => simp [readTag, hsplit, hlookup]

/-- Where it stands for none, the name is in no namespace. -/
theorem readTag_uri (hsplit : splitName written = (q, n)) :
    (readTag outer written as line).1.uri = lookup? (as.filterMap declaration? ++ outer) q := by
  cases q with
  | none => simp [readTag, hsplit]
  | some q =>
      cases hlookup : lookup? (as.filterMap declaration? ++ outer) (some q) with
      | none => simp [readTag, hsplit, hlookup]
      | some uri => simp [readTag, hsplit, hlookup]

/-- A name that is in a namespace has been taken apart. -/
theorem splitName_of_readTag (huri : (readTag outer written as line).1.uri.isSome = true) :
    splitName written =
      ((readTag outer written as line).1.qualifier, (readTag outer written as line).1.name) := by
  rcases hsplit : splitName written with ⟨q, n⟩
  rw [readTag_uri hsplit] at huri
  obtain ⟨uri, hlookup⟩ := Option.isSome_iff_exists.mp huri
  cases q with
  | none => simp [readTag, hsplit]
  | some q => simp [readTag, hsplit, hlookup]

end ReadTag

/-! ## Elements -/

/-- An element as it stands in a text, its names not yet resolved. -/
inductive Written where
  | mk (name : String) (attributes : List (String × String)) (text : String)
    (children : List Written)

namespace Written

/-- The attributes, declarations among them. -/
def attributes : Written → List (String × String)
  | .mk _ attributes _ _ => attributes

/-- The declarations on the element itself. -/
def declarations (w : Written) : List Declaration :=
  w.attributes.filterMap declaration?

mutual
/-- The element that is meant where some declarations are in force, lines aside. -/
def resolve (outer : List Declaration) : Written → Element
  | .mk name attributes text children =>
    .mk (readTag outer name attributes 1).1 text
      (resolveAll (readTag outer name attributes 1).2 children)

/-- The elements that are meant, in order. -/
def resolveAll (outer : List Declaration) : List Written → List Element
  | [] => []
  | w :: ws => resolve outer w :: resolveAll outer ws
end

theorem resolveAll_eq_map (outer : List Declaration) (ws : List Written) :
    resolveAll outer ws = ws.map (resolve outer) := by
  induction ws with
  | nil => rfl
  | cons w ws ih => rw [resolveAll, ih, List.map_cons]

/-- Declarations stay what they are. -/
theorem declarations_resolve (outer : List Declaration) (w : Written) :
    (w.resolve outer).tag.declarations = w.declarations := by
  cases w
  exact readTag_declarations outer _ _ _

/-- The name that stands in the text. -/
def name : Written → String
  | .mk name _ _ _ => name

/-- The children. -/
def children : Written → List Written
  | .mk _ _ _ children => children

/-- The name is in the namespace that its qualifier stands for. -/
theorem isIn_resolve_iff {w : Written} {q : Option String} {n : String}
    (hsplit : splitName w.name = (q, n)) (outer : List Declaration) (uri : String) :
    (w.resolve outer).isIn uri n = true ↔ lookup? (w.declarations ++ outer) q = some uri := by
  obtain ⟨written, as, text, children⟩ := w
  have huri : (readTag outer written as 1).1.uri = lookup? (as.filterMap declaration? ++ outer) q :=
    readTag_uri hsplit
  simp only [Element.isIn, Bool.and_eq_true, beq_iff_eq]
  constructor
  · rintro ⟨hin, -⟩
    exact huri.symm.trans hin
  · intro hlookup
    exact ⟨huri.trans hlookup, (readTag_of_lookup hsplit hlookup).1⟩

theorem children_resolve (outer : List Declaration) (w : Written) :
    (w.resolve outer).children = w.children.map (resolve (w.declarations ++ outer)) := by
  obtain ⟨written, as, text, children⟩ := w
  exact resolveAll_eq_map _ _

/-- An attribute without a qualifier keeps its value. -/
theorem attribute?_resolve (outer : List Declaration) (w : Written) {name : String}
    (h : isPlainName name = true) (hname : name ≠ "xmlns") :
    (w.resolve outer).attribute? name = w.attributes.lookup name := by
  obtain ⟨written, as, text, children⟩ := w
  have hcolon : ':' ∉ name.toList := fun hmem => ((isPlainName_iff.mp h).2 _ hmem).2 rfl
  have hplain : ∀ a : String × String, a.1 = name → declaration? a = none := by
    intro a ha
    obtain rfl := ha
    simp [declaration?, splitName_of_not_mem hcolon, hname]
  rw [Element.attribute?, resolve, Element.tag, readTag_attributes, attributes]
  generalize as.filterMap declaration? ++ outer = scope
  induction as with
  | nil => rfl
  | cons a as ih =>
      obtain ⟨n, value⟩ := a
      have hfound := readAttribute_isPlain scope (n, value) hcolon
      have hvalue : (readAttribute scope (n, value)).value = value :=
        congrArg Prod.snd (written_readAttribute scope (n, value))
      rw [List.lookup_cons]
      by_cases hn : n = name
      · subst hn
        rw [beq_self_eq_true] at hfound ⊢
        simp [hplain (n, value) rfl, hfound, hvalue]
      · have hne : (name == n) = false := beq_eq_false_iff_ne.mpr (Ne.symm hn)
        rw [beq_eq_false_iff_ne.mpr hn] at hfound
        rw [hne, ← ih]
        cases hdeclared : (declaration? (n, value)).isNone <;> simp [hdeclared, hfound]

end Written

namespace Element

mutual
/-- The element as it is written. -/
def written : Element → Written
  | .mk tag text children => .mk tag.writtenName tag.writtenAttributes text (allWritten children)

/-- The elements as they are written. -/
def allWritten : List Element → List Written
  | [] => []
  | e :: es => written e :: allWritten es
end

theorem name_written (e : Element) : e.written.name = e.tag.writtenName := by
  cases e
  rfl

theorem attributes_written (e : Element) : e.written.attributes = e.tag.writtenAttributes := by
  cases e
  rfl

end Element

theorem Element.isIn_iff {e : Element} {uri name : String} :
    e.isIn uri name = true ↔ e.tag.uri = some uri ∧ e.tag.name = name := by
  simp [isIn, Element.uri, Element.name]

/-- An element of this name is written with its qualifier in front of it. -/
theorem Element.writtenName_of_isIn {e : Element} {uri name : String}
    (h : e.isIn uri name = true) : e.tag.writtenName = qualified e.tag.qualifier name := by
  rw [← (isIn_iff.mp h).2]
  rfl

/-! ## Legible elements -/

/-- The start tag consists of names and of characters that a document can hold, and where some
declarations are in force it is read as itself. -/
def Tag.isLegible (outer : List Declaration) (t : Tag) : Bool :=
  isName t.writtenName &&
    t.writtenAttributes.all (fun a => isName a.1 && a.2.toList.all isXmlChar) &&
    decide (t.writtenAttributes.map Prod.fst).Nodup &&
    decide ((readTag outer t.writtenName t.writtenAttributes t.line).1 = t)

namespace Element

mutual
/-- Whether the element and those inside it are read as themselves where some declarations are in
force. -/
def isLegible (outer : List Declaration) : Element → Bool
  | .mk tag _ children => tag.isLegible outer && areLegible (tag.declarations ++ outer) children

/-- Whether so it is with all of the elements. -/
def areLegible (outer : List Declaration) : List Element → Bool
  | [] => true
  | e :: es => isLegible outer e && areLegible outer es
end

theorem areLegible_iff {outer : List Declaration} {es : List Element} :
    areLegible outer es = true ↔ ∀ e ∈ es, e.isLegible outer = true := by
  induction es with
  | nil => simp [areLegible]
  | cons e es ih => rw [areLegible, Bool.and_eq_true, ih, List.forall_mem_cons]

end Element

/-- What makes a start tag legible. -/
structure Tag.Legible (outer : List Declaration) (t : Tag) : Prop where
  name : isName t.writtenName = true
  attributes : AreAttributes t.writtenAttributes
  values : ∀ a ∈ t.writtenAttributes, ∀ c ∈ a.2.toList, isXmlChar c = true
  read : (readTag outer t.writtenName t.writtenAttributes t.line).1 = t

namespace Tag

variable {outer : List Declaration} {t : Tag}

theorem legible_of_isLegible (h : t.isLegible outer = true) : t.Legible outer := by
  simp only [isLegible, Bool.and_eq_true, List.all_eq_true, decide_eq_true_eq] at h
  obtain ⟨⟨⟨hname, hall⟩, hdistinct⟩, hread⟩ := h
  exact ⟨hname, ⟨fun a ha => (hall a ha).1, hdistinct⟩, fun a ha => (hall a ha).2, hread⟩

theorem Legible.isLegible (h : t.Legible outer) : t.isLegible outer = true := by
  simp only [Tag.isLegible, Bool.and_eq_true, List.all_eq_true, decide_eq_true_eq]
  exact ⟨⟨⟨h.name, fun a ha => ⟨h.attributes.names a ha, h.values a ha⟩⟩, h.attributes.distinct⟩,
    h.read⟩

theorem Legible.read_unlined (h : t.Legible outer) :
    (readTag outer t.writtenName t.writtenAttributes 1).1 = t.unlined := by
  rw [← readTag_unlined outer _ _ t.line, h.read]

theorem Legible.scope (h : t.Legible outer) (line : Nat) :
    (readTag outer t.writtenName t.writtenAttributes line).2 = t.declarations ++ outer := by
  rw [readTag_scope, readTag_declarations, ← readTag_declarations outer t.writtenName _ t.line,
    h.read]

/-- The declarations are the declarations among the attributes. -/
theorem Legible.declarations (h : t.Legible outer) :
    t.writtenAttributes.filterMap declaration? = t.declarations := by
  rw [← readTag_declarations outer t.writtenName _ t.line, h.read]

/-- The other attributes declare nothing. -/
theorem Legible.declaration?_eq_none (h : t.Legible outer) {a : Attribute}
    (ha : a ∈ t.attributes) :
    declaration? a.written = none := by
  rw [← h.read, readTag_attributes] at ha
  obtain ⟨b, hb, rfl⟩ := List.mem_map.mp ha
  rw [written_readAttribute]
  exact Option.isNone_iff_eq_none.mp (List.mem_filter.mp hb).2

/-- Only attributes in a namespace have a qualifier. -/
theorem Legible.qualifier_eq (h : t.Legible outer) {a : Attribute} (ha : a ∈ t.attributes) :
    (if a.uri.isSome then a.qualifier else none) = a.qualifier := by
  rw [← h.read, readTag_attributes] at ha
  obtain ⟨b, -, rfl⟩ := List.mem_map.mp ha
  rcases hsplit : Xml.splitName b.1 with ⟨q, n⟩
  cases q with
  | none => simp [readAttribute, hsplit]
  | some q =>
      cases hlookup :
          Xml.lookup? (t.writtenAttributes.filterMap declaration? ++ outer) (some q) with
      | none => simp [readAttribute, hsplit, hlookup]
      | some uri => simp [readAttribute, hsplit, hlookup]

/-- A name in a namespace is its qualifier and its local name. -/
theorem Legible.splitName (h : t.Legible outer) (huri : t.uri.isSome = true) :
    Xml.splitName t.writtenName = (t.qualifier, t.name) := by
  have hread := h.read
  have hsplit : Xml.splitName t.writtenName =
      ((readTag outer t.writtenName t.writtenAttributes t.line).1.qualifier,
        (readTag outer t.writtenName t.writtenAttributes t.line).1.name) :=
    splitName_of_readTag (by rw [hread]; exact huri)
  rw [hread] at hsplit
  exact hsplit

/-- The qualifier stands for the namespace of the name. -/
theorem Legible.lookup? (h : t.Legible outer) (huri : t.uri.isSome = true) :
    Xml.lookup? (t.declarations ++ outer) t.qualifier = t.uri := by
  have hread : (readTag outer t.writtenName t.writtenAttributes t.line).1.uri =
      Xml.lookup? (t.writtenAttributes.filterMap declaration? ++ outer) t.qualifier :=
    readTag_uri (h.splitName huri)
  rw [h.read, h.declarations] at hread
  exact hread.symm

end Tag

/-- Declarations are no attributes of a plain name. -/
theorem lookup_declarations {ds : List Declaration} {name : String} (h : isPlainName name = true)
    (hname : name ≠ "xmlns") : (ds.map Declaration.written).lookup name = none := by
  have hcolon : ':' ∉ name.toList := fun hmem => ((isPlainName_iff.mp h).2 _ hmem).2 rfl
  rw [List.lookup_eq_none_iff]
  rintro ⟨name', value⟩ ha
  obtain ⟨d, -, hd⟩ := List.mem_map.mp ha
  have hread := declaration?_written d
  rw [hd] at hread
  have hne : name ≠ name' := by
    rintro rfl
    simp [declaration?, splitName_of_not_mem hcolon, hname] at hread
  simpa using hne

mutual
/-- A legible element is read as itself. -/
theorem Element.resolve_written {outer : List Declaration} :
    ∀ {e : Element}, e.isLegible outer = true → e.written.resolve outer = e.unlined
  | .mk tag text children, h => by
      obtain ⟨htag, hchildren⟩ := Bool.and_eq_true_iff.mp h
      have hlegible := Tag.legible_of_isLegible htag
      rw [Element.written, Written.resolve, hlegible.read_unlined, hlegible.scope,
        Element.resolveAll_written hchildren, Element.unlined]

theorem Element.resolveAll_written {outer : List Declaration} :
    ∀ {es : List Element}, areLegible outer es = true →
      Written.resolveAll outer (allWritten es) = allUnlined es
  | [], _ => rfl
  | e :: es, h => by
      obtain ⟨he, hes⟩ := Bool.and_eq_true_iff.mp h
      rw [Element.allWritten, Written.resolveAll, Element.resolve_written he,
        Element.resolveAll_written hes, Element.allUnlined]
end

/-- An attribute without a qualifier is the first one that is written with its name. -/
theorem Element.attribute?_eq_lookup {outer : List Declaration} {e : Element}
    (h : e.isLegible outer = true) {name : String} (hplain : isPlainName name = true)
    (hname : name ≠ "xmlns") : e.attribute? name = e.written.attributes.lookup name := by
  rw [← Element.attribute?_unlined, ← Element.resolve_written h,
    Written.attribute?_resolve outer _ hplain hname]

/-- Declarations aside, these are the attributes with their qualified names. -/
theorem Element.lookup_attributes_written (e : Element) {name : String}
    (hplain : isPlainName name = true) (hname : name ≠ "xmlns") :
    e.written.attributes.lookup name = e.qualifiedAttributes.lookup name := by
  rw [attributes_written, Tag.writtenAttributes, List.lookup_append,
    lookup_declarations hplain hname, Option.none_or]
  rfl

/-! ## Copies -/

/-- The element is what the written form of another is read as in some place. -/
def Element.IsCopyOf (copy e : Element) : Prop :=
  ∃ outer, copy.unlined = e.written.resolve outer

namespace Element.IsCopyOf

variable {outer : List Declaration} {copy e : Element}

/-- A copy has the same attributes, wherever it stands. -/
theorem attribute? (h : copy.IsCopyOf e) (hlegible : e.isLegible outer = true) {name : String}
    (hplain : isPlainName name = true) (hname : name ≠ "xmlns") :
    copy.attribute? name = e.attribute? name := by
  obtain ⟨outer', heq⟩ := h
  rw [← Element.attribute?_unlined, heq, Written.attribute?_resolve outer' _ hplain hname,
    Element.attribute?_eq_lookup hlegible hplain hname]

/-- A copy makes the same declarations. -/
theorem declarations (h : copy.IsCopyOf e) (hlegible : e.isLegible outer = true) :
    copy.tag.declarations = e.tag.declarations := by
  obtain ⟨outer', heq⟩ := h
  rw [← Element.declarations_unlined copy, heq, Written.declarations_resolve,
    ← Written.declarations_resolve outer, Element.resolve_written hlegible,
    Element.declarations_unlined]

end Element.IsCopyOf

end VideoCatalog.Xml
