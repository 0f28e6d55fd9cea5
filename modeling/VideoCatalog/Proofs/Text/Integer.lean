import VideoCatalog.Text.Integer

/-!
# Integers are read as they were written

An integer is written as its digits, with a minus sign in front if it is negative. Reading drops
white space at the ends, of which there is none, and gives the integer again wherever it lies in
range (`integer?_toString`), so a number of a fixed width always comes back (`int64?_trim_toString`,
`int32?_trim_toString`).
-/

namespace VideoCatalog.Text

/-! ## What an integer is written with -/

theorem mem_toString_int {i : Int} {c : Char} (h : c ∈ (toString i).toList) :
    c = '-' ∨ c.isDigit = true := by
  rw [Int.toString_eq_repr, Int.repr_eq_if] at h
  split at h
  · rw [Nat.toList_repr] at h
    exact .inr (Nat.isDigit_of_mem_toDigits (by decide) (by decide) h)
  · rw [String.toList_append, Nat.toList_repr] at h
    rcases List.mem_append.mp h with h | h
    · exact .inl (by simpa using h)
    · exact .inr (Nat.isDigit_of_mem_toDigits (by decide) (by decide) h)

theorem toNat_of_mem_toString_int {i : Int} {c : Char} (h : c ∈ (toString i).toList) :
    0x20 < c.toNat ∧ c.toNat < 0x7f := by
  rcases mem_toString_int h with rfl | hdigit
  · decide
  · obtain ⟨hlow, hhigh⟩ := Char.isDigit_iff_toNat.mp hdigit
    have hzero : '0'.toNat = 48 := rfl
    have hnine : '9'.toNat = 57 := rfl
    omega

theorem isBlank_of_mem_toString_int {i : Int} {c : Char} (h : c ∈ (toString i).toList) :
    isBlank c = false := by
  obtain ⟨hlow, hhigh⟩ := toNat_of_mem_toString_int h
  have hcodes : ∀ n ∈ blankCodes, n ≤ 0x20 ∨ 0x7f ≤ n := by decide
  rw [isBlank, List.contains_eq_mem, decide_eq_false_iff_not]
  intro hmem
  rcases hcodes _ hmem with h | h <;> omega

/-! ## Trimming -/

theorem trimChars_of_not_isBlank {cs : List Char} (h : ∀ c ∈ cs, isBlank c = false) :
    trimChars cs = cs := by
  have hdrop : ∀ ds : List Char, (∀ c ∈ ds, isBlank c = false) → ds.dropWhile isBlank = ds := by
    intro ds hds
    cases ds with
    | nil => rfl
    | cons d ds => rw [List.dropWhile_cons, hds d List.mem_cons_self]; rfl
  have hreverse : ∀ c ∈ cs.reverse, isBlank c = false := fun c hc => h c (List.mem_reverse.mp hc)
  rw [trimChars, trimStart, trimEnd, hdrop cs h, hdrop cs.reverse hreverse, List.reverse_reverse]

theorem trim_of_not_isBlank {s : String} (h : ∀ c ∈ s.toList, isBlank c = false) : trim s = s := by
  rw [trim, trimChars_of_not_isBlank h, String.ofList_toList]

theorem trim_toString_int (i : Int) : trim (toString i) = toString i :=
  trim_of_not_isBlank fun _ hc => isBlank_of_mem_toString_int hc

/-! ## Reading -/

theorem digits?_of_isDigit {cs : List Char} (hne : cs ≠ []) (h : ∀ c ∈ cs, c.isDigit = true) :
    digits? cs = some (Nat.ofDigitChars 10 cs 0) := by
  have hempty : cs.isEmpty = false := by
    simpa using hne
  have hvalue : cs.foldl (fun n c => n * 10 + (c.toNat - 48)) 0 = Nat.ofDigitChars 10 cs 0 := by
    rw [Nat.ofDigitChars_eq_foldl]
    simp only [Nat.mul_comm, show '0'.toNat = 48 from rfl]
  simp [digits?, hempty, List.all_eq_true.mpr h, hvalue]

theorem digits?_toDigits (n : Nat) : digits? (Nat.toDigits 10 n) = some n := by
  have hdigits : ∀ c ∈ Nat.toDigits 10 n, c.isDigit = true := fun c hc =>
    Nat.isDigit_of_mem_toDigits (by decide) (by decide) hc
  rw [digits?_of_isDigit (by simp) hdigits, Nat.ofDigitChars_ten_toDigits]

/-- Digits alone stand for a number that is not negative. -/
theorem integer?_of_isDigit {low high : Int} {cs : List Char} (h : ∀ c ∈ cs, c.isDigit = true) :
    integer? low high cs =
      ((digits? cs).map Int.ofNat).filter (fun i => low ≤ i && i ≤ high) := by
  unfold integer?
  split
  · exact absurd (h _ List.mem_cons_self) (by decide)
  · exact absurd (h _ List.mem_cons_self) (by decide)
  · rfl

/-- An integer in range is read as it was written. -/
theorem integer?_toString {low high i : Int} (hlow : low ≤ i) (hhigh : i ≤ high) :
    integer? low high (toString i).toList = some i := by
  rw [Int.toString_eq_repr, Int.repr_eq_if]
  split
  case isTrue hnonneg =>
    have hvalue : Int.ofNat i.toNat = i := Int.toNat_of_nonneg hnonneg
    rw [Nat.toList_repr,
      integer?_of_isDigit fun c hc => Nat.isDigit_of_mem_toDigits (by decide) (by decide) hc,
      digits?_toDigits, Option.map_some, hvalue]
    simp [hlow, hhigh]
  case isFalse hneg =>
    have hvalue : -((-i).toNat : Int) = i := by omega
    have hsigned : low < 0 := by omega
    have hminus : "-".toList = ['-'] := by simp
    rw [String.toList_append, Nat.toList_repr, hminus, List.singleton_append]
    rw [integer?, if_pos hsigned, digits?_toDigits]
    show (some (-((-i).toNat : Int))).filter _ = some i
    rw [hvalue]
    simp [hlow, hhigh]

theorem int64?_trim_toString (i : Int64) : int64? (trim (toString i.toInt)) = some i := by
  rw [trim_toString_int, int64?, integer?_toString (Int64.minValue_le_toInt i) (Int64.toInt_le i),
    Option.map_some, Int64.ofInt_toInt]

theorem int32?_trim_toString (i : Int32) : int32? (trim (toString i.toInt)) = some i := by
  rw [trim_toString_int, int32?, integer?_toString (Int32.minValue_le_toInt i) (Int32.toInt_le i),
    Option.map_some, Int32.ofInt_toInt]

end VideoCatalog.Text
