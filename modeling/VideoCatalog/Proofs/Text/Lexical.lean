import VideoCatalog.Proofs.Text.Integer
import VideoCatalog.Record.Xml
import VideoCatalog.Xml.Token

/-!
# Values as XML Schema writes them

In XML Schema the text of a number or a truth value may have white space around it, in the sense of
XML. What is left stands for a value: an integer is an optional sign and one or more digits, however
many of them are leading zeros; a truth value is one of four words.

`IsInteger` and `IsTruth` say this of whole texts. The reader works otherwise: it drops white space
in the sense of Unicode, then reads with a sign only where the range has negative numbers. It gets
the same values (`int64?_of_isInteger`, `int32?_of_isInteger`, `truth?_of_isTruth`), since no sign,
digit or letter is white space. What it reads after trimming is a numeral or one of the words, and
nothing else is read (`int64?_eq_some_iff`, `int32?_eq_some_iff`, `truth?_eq_some_iff`).
-/

namespace VideoCatalog.Text

/-! ## White space at the ends -/

/-- The text consists of these characters, and of XML white space in front and behind. -/
def Strips (text : String) (core : List Char) : Prop :=
  ∃ before after, text.toList = before ++ core ++ after ∧
    (∀ c ∈ before, Xml.isGap c = true) ∧ ∀ c ∈ after, Xml.isGap c = true

theorem Strips.of_all {text : String} {before core after : List Char}
    (htext : text.toList = before ++ core ++ after) (hbefore : before.all Xml.isGap = true)
    (hafter : after.all Xml.isGap = true) : Strips text core :=
  ⟨before, after, htext, List.all_eq_true.mp hbefore, List.all_eq_true.mp hafter⟩

/-- White space of XML is white space of Unicode. -/
theorem isBlank_of_isGap {c : Char} (h : Xml.isGap c = true) : isBlank c = true := by
  simp only [Xml.isGap, Bool.or_eq_true, decide_eq_true_eq] at h
  rcases h with ((rfl | rfl) | rfl) | rfl
  · rfl
  · rfl
  · rfl
  · rfl

theorem trimChars_surrounded {before core after : List Char}
    (hbefore : ∀ c ∈ before, isBlank c = true) (hafter : ∀ c ∈ after, isBlank c = true)
    (hne : core ≠ []) (hcore : ∀ c ∈ core, isBlank c = false) :
    trimChars (before ++ core ++ after) = core := by
  have hdrop : ∀ ds rest : List Char, ds ≠ [] → (∀ c ∈ ds, isBlank c = false) →
      (ds ++ rest).dropWhile isBlank = ds ++ rest := by
    intro ds rest hds hblank
    cases ds with
    | nil => exact absurd rfl hds
    | cons d ds =>
        rw [List.cons_append, List.dropWhile_cons, hblank d List.mem_cons_self]
        rfl
  have hstart : trimStart (before ++ core ++ after) = core ++ after := by
    rw [trimStart, List.append_assoc, List.dropWhile_append_of_pos hbefore,
      hdrop core after hne hcore]
  have hreverse : ∀ c ∈ core.reverse, isBlank c = false := by
    intro c hc
    exact hcore c (List.mem_reverse.mp hc)
  have hend : (core ++ after).reverse.dropWhile isBlank = core.reverse := by
    rw [List.reverse_append, List.dropWhile_append_of_pos
      (fun c hc => hafter c (List.mem_reverse.mp hc))]
    have hrest := hdrop core.reverse [] (by simpa using hne) hreverse
    rwa [List.append_nil] at hrest
  rw [trimChars, hstart, trimEnd, hend, List.reverse_reverse]

/-- What is between the white space is found by trimming, provided it has none itself. -/
theorem trim_of_strips {text : String} {core : List Char} (h : Strips text core) (hne : core ≠ [])
    (hcore : ∀ c ∈ core, isBlank c = false) : trim text = String.ofList core := by
  obtain ⟨before, after, htext, hbefore, hafter⟩ := h
  rw [trim, htext, trimChars_surrounded (fun c hc => isBlank_of_isGap (hbefore c hc))
    (fun c hc => isBlank_of_isGap (hafter c hc)) hne hcore]

/-! ## Integers -/

/-- The characters stand for the integer: digits, or a sign and digits. -/
inductive Numeral : List Char → Int → Prop
  | plain {ds : List Char} : ds ≠ [] → (∀ d ∈ ds, d.isDigit = true) →
      Numeral ds (Nat.ofDigitChars 10 ds 0)
  | plus {ds : List Char} : ds ≠ [] → (∀ d ∈ ds, d.isDigit = true) →
      Numeral ('+' :: ds) (Nat.ofDigitChars 10 ds 0)
  | minus {ds : List Char} : ds ≠ [] → (∀ d ∈ ds, d.isDigit = true) →
      Numeral ('-' :: ds) (-(Nat.ofDigitChars 10 ds 0 : Nat))

/-- The text stands for the integer. -/
def IsInteger (text : String) (i : Int) : Prop :=
  ∃ core, Strips text core ∧ Numeral core i

theorem isBlank_of_isDigit {c : Char} (h : c.isDigit = true) : isBlank c = false := by
  obtain ⟨hlow, hhigh⟩ := Char.isDigit_iff_toNat.mp h
  have hzero : '0'.toNat = 48 := rfl
  have hnine : '9'.toNat = 57 := rfl
  have hcodes : ∀ n ∈ blankCodes, n < 48 ∨ 57 < n := by decide
  rw [isBlank, List.contains_eq_mem, decide_eq_false_iff_not]
  intro hmem
  rcases hcodes _ hmem with hn | hn
  · omega
  · omega

theorem of_digits? {cs : List Char} {n : Nat} (h : digits? cs = some n) :
    cs ≠ [] ∧ (∀ c ∈ cs, c.isDigit = true) ∧ n = Nat.ofDigitChars 10 cs 0 := by
  have hdigits : cs ≠ [] ∧ ∀ c ∈ cs, c.isDigit = true := by
    unfold digits? at h
    split at h
    · cases h
    · next hboth => simpa using hboth
  obtain ⟨hne, hall⟩ := hdigits
  exact ⟨hne, hall, Option.some.inj (h.symm.trans (digits?_of_isDigit hne hall))⟩

namespace Numeral

variable {cs : List Char} {i j low high : Int}

theorem ne_nil (h : Numeral cs i) : cs ≠ [] := by
  cases h with
  | plain hne _ => exact hne
  | plus _ _ => exact List.cons_ne_nil _ _
  | minus _ _ => exact List.cons_ne_nil _ _

theorem not_isBlank (h : Numeral cs i) : ∀ c ∈ cs, isBlank c = false := by
  cases h with
  | plain _ hdigits =>
      intro c hc
      exact isBlank_of_isDigit (hdigits c hc)
  | plus _ hdigits | minus _ hdigits =>
      intro c hc
      rcases List.mem_cons.mp hc with rfl | hc
      · rfl
      · exact isBlank_of_isDigit (hdigits c hc)

/-- A sign is no digit, so there is one way only to read a numeral. -/
theorem unique (h : Numeral cs i) (h' : Numeral cs j) : i = j := by
  have hsign : ∀ {sign : Char} {ds : List Char}, sign.isDigit = false →
      ¬∀ d ∈ sign :: ds, d.isDigit = true := by
    intro sign ds hsign hdigits
    rw [hdigits sign List.mem_cons_self] at hsign
    cases hsign
  cases h with
  | plain _ hdigits =>
      cases h' with
      | plain _ _ => rfl
      | plus _ _ => exact absurd hdigits (hsign rfl)
      | minus _ _ => exact absurd hdigits (hsign rfl)
  | plus _ _ =>
      cases h' with
      | plain _ hdigits => exact absurd hdigits (hsign rfl)
      | plus _ _ => rfl
  | minus _ _ =>
      cases h' with
      | plain _ hdigits => exact absurd hdigits (hsign rfl)
      | minus _ _ => rfl

/-- A numeral is read as the integer that it stands for, in a range with negative numbers. -/
theorem integer?_eq (h : Numeral cs i) (hneg : low < 0) (hlow : low ≤ i) (hhigh : i ≤ high) :
    integer? low high cs = some i := by
  have hrange : ((low ≤ i : Bool) && (i ≤ high : Bool)) = true := by
    simp [hlow, hhigh]
  cases h with
  | plain hne hdigits =>
      rw [integer?_of_isDigit hdigits, digits?_of_isDigit hne hdigits]
      exact Option.filter_some_pos hrange
  | plus hne hdigits =>
      rw [integer?, digits?_of_isDigit hne hdigits]
      exact Option.filter_some_pos hrange
  | minus hne hdigits =>
      rw [integer?, if_pos hneg, digits?_of_isDigit hne hdigits]
      exact Option.filter_some_pos hrange

/-- What is read as an integer is a numeral of it. -/
theorem of_integer? (h : integer? low high cs = some i) : Numeral cs i ∧ low ≤ i ∧ i ≤ high := by
  obtain ⟨hsigned, hrange⟩ := Option.filter_eq_some_iff.mp h
  have hbounds : low ≤ i ∧ i ≤ high := by simpa using hrange
  refine ⟨?_, hbounds⟩
  split at hsigned
  · obtain ⟨n, hdigits, rfl⟩ := Option.map_eq_some_iff.mp hsigned
    obtain ⟨hne, hall, rfl⟩ := of_digits? hdigits
    exact .plus hne hall
  · split at hsigned
    · obtain ⟨magnitude, hcast, rfl⟩ := Option.map_eq_some_iff.mp hsigned
      obtain ⟨n, hdigits, hn⟩ := Option.bind_eq_some_iff.mp hcast
      obtain rfl := Option.some.inj hn
      obtain ⟨hne, hall, rfl⟩ := of_digits? hdigits
      exact .minus hne hall
    · cases hsigned
  · obtain ⟨n, hdigits, rfl⟩ := Option.map_eq_some_iff.mp hsigned
    obtain ⟨hne, hall, rfl⟩ := of_digits? hdigits
    exact .plain hne hall

end Numeral

/-- The integers of 64 bits that a text is read as are those that it is a numeral of. -/
theorem int64?_eq_some_iff {s : String} {v : Int64} :
    int64? s = some v ↔ Numeral s.toList v.toInt := by
  rw [int64?, Option.map_eq_some_iff]
  constructor
  · rintro ⟨i, hread, rfl⟩
    obtain ⟨hnumeral, hlow, hhigh⟩ := Numeral.of_integer? hread
    rwa [Int64.toInt_ofInt_of_le hlow (Int.lt_add_one_of_le hhigh)]
  · intro hnumeral
    exact ⟨v.toInt, hnumeral.integer?_eq (by decide) (Int64.minValue_le_toInt v) (Int64.toInt_le v),
      Int64.ofInt_toInt v⟩

/-- The integers of 32 bits that a text is read as are those that it is a numeral of. -/
theorem int32?_eq_some_iff {s : String} {v : Int32} :
    int32? s = some v ↔ Numeral s.toList v.toInt := by
  rw [int32?, Option.map_eq_some_iff]
  constructor
  · rintro ⟨i, hread, rfl⟩
    obtain ⟨hnumeral, hlow, hhigh⟩ := Numeral.of_integer? hread
    rwa [Int32.toInt_ofInt_of_le hlow (Int.lt_add_one_of_le hhigh)]
  · intro hnumeral
    exact ⟨v.toInt, hnumeral.integer?_eq (by decide) (Int32.minValue_le_toInt v) (Int32.toInt_le v),
      Int32.ofInt_toInt v⟩

section Values

variable {text : String} {i j : Int}

theorem IsInteger.trim_eq (h : IsInteger text i) :
    ∃ core, trim text = String.ofList core ∧ Numeral core i := by
  obtain ⟨core, hstrips, hnumeral⟩ := h
  exact ⟨core, trim_of_strips hstrips hnumeral.ne_nil hnumeral.not_isBlank, hnumeral⟩

theorem IsInteger.unique (h : IsInteger text i) (h' : IsInteger text j) : i = j := by
  obtain ⟨core, htrim, hnumeral⟩ := h.trim_eq
  obtain ⟨core', htrim', hnumeral'⟩ := h'.trim_eq
  obtain rfl : core = core' := String.ofList_injective (htrim.symm.trans htrim')
  exact hnumeral.unique hnumeral'

theorem int64?_of_isInteger (h : IsInteger text i) (hlow : Int64.minValue.toInt ≤ i)
    (hhigh : i ≤ Int64.maxValue.toInt) : ∃ v, int64? (trim text) = some v ∧ v.toInt = i := by
  obtain ⟨core, htrim, hnumeral⟩ := h.trim_eq
  have hneg : Int64.minValue.toInt < 0 := by decide
  refine ⟨Int64.ofInt i, ?_, Int64.toInt_ofInt_of_le hlow (Int.lt_add_one_of_le hhigh)⟩
  rw [int64?, htrim, String.toList_ofList, hnumeral.integer?_eq hneg hlow hhigh]
  rfl

theorem int32?_of_isInteger (h : IsInteger text i) (hlow : Int32.minValue.toInt ≤ i)
    (hhigh : i ≤ Int32.maxValue.toInt) : ∃ v, int32? (trim text) = some v ∧ v.toInt = i := by
  obtain ⟨core, htrim, hnumeral⟩ := h.trim_eq
  have hneg : Int32.minValue.toInt < 0 := by decide
  refine ⟨Int32.ofInt i, ?_, Int32.toInt_ofInt_of_le hlow (Int.lt_add_one_of_le hhigh)⟩
  rw [int32?, htrim, String.toList_ofList, hnumeral.integer?_eq hneg hlow hhigh]
  rfl

end Values

/-! ## Truth values -/

/-- The words for a truth value. -/
def truthWords : Bool → List (List Char)
  | true => [['t', 'r', 'u', 'e'], ['1']]
  | false => [['f', 'a', 'l', 's', 'e'], ['0']]

/-- The text stands for the truth value. -/
def IsTruth (text : String) (t : Bool) : Prop :=
  ∃ word ∈ truthWords t, Strips text word

theorem plain_of_mem_truthWords : ∀ t, ∀ word ∈ truthWords t,
    word ≠ [] ∧ word.all (fun c => !isBlank c) = true ∧
      truth? (String.ofList word) = some t := by
  decide

theorem truth?_of_isTruth {text : String} {t : Bool} (h : IsTruth text t) :
    truth? (trim text) = some t := by
  obtain ⟨word, hword, hstrips⟩ := h
  obtain ⟨hne, hall, htruth⟩ := plain_of_mem_truthWords t word hword
  have hblank : ∀ c ∈ word, isBlank c = false := by
    intro c hc
    exact Bool.not_inj (List.all_eq_true.mp hall c hc)
  rw [trim_of_strips hstrips hne hblank, htruth]

theorem truth?_eq_some_iff {s : String} {t : Bool} :
    truth? s = some t ↔ s.toList ∈ truthWords t := by
  constructor
  · intro h
    unfold truth? at h
    split at h
    · next hs =>
      obtain rfl := Option.some.inj h
      rcases (by simpa using hs : s = "true" ∨ s = "1") with rfl | rfl <;> decide
    · split at h
      · next hs =>
        obtain rfl := Option.some.inj h
        rcases (by simpa using hs : s = "false" ∨ s = "0") with rfl | rfl <;> decide
      · cases h
  · intro hmem
    obtain ⟨-, -, htruth⟩ := plain_of_mem_truthWords t _ hmem
    rwa [String.ofList_toList] at htruth

theorem isTruth_unique (text : String) (t t' : Bool) (h : IsTruth text t) (h' : IsTruth text t') :
    t = t' :=
  Option.some.inj ((truth?_of_isTruth h).symm.trans (truth?_of_isTruth h'))

/-! ## Datatypes -/

/-- The text is of the datatype of this name. Strings and tokens can be any text, and so can what is
of a datatype that the shipped grammars do not use. -/
def OfDatatype (type text : String) : Prop :=
  match type with
  | "long" => ∃ i, IsInteger text i ∧ Int64.minValue.toInt ≤ i ∧ i ≤ Int64.maxValue.toInt
  | "int" => ∃ i, IsInteger text i ∧ Int32.minValue.toInt ≤ i ∧ i ≤ Int32.maxValue.toInt
  | "boolean" => ∃ t, IsTruth text t
  | _ => True

theorem OfDatatype.exists_int64 {text : String} (h : OfDatatype "long" text) :
    ∃ v : Int64, IsInteger text v.toInt := by
  obtain ⟨i, hinteger, hlow, hhigh⟩ := h
  refine ⟨Int64.ofInt i, ?_⟩
  rwa [Int64.toInt_ofInt_of_le hlow (Int.lt_add_one_of_le hhigh)]

theorem OfDatatype.exists_int32 {text : String} (h : OfDatatype "int" text) :
    ∃ v : Int32, IsInteger text v.toInt := by
  obtain ⟨i, hinteger, hlow, hhigh⟩ := h
  refine ⟨Int32.ofInt i, ?_⟩
  rwa [Int32.toInt_ofInt_of_le hlow (Int.lt_add_one_of_le hhigh)]

theorem OfDatatype.exists_truth {text : String} (h : OfDatatype "boolean" text) :
    ∃ t, IsTruth text t :=
  h

end VideoCatalog.Text
