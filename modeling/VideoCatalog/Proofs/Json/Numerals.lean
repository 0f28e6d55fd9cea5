import Mathlib.Data.List.TakeWhile
import VideoCatalog.Json.Reader
import VideoCatalog.Proofs.Text.Integer

/-!
# Integers are read as they were written

A numeral ends where something else than a digit, a decimal point or an exponent follows, so what
may follow a value on a line (`Follows`) ends it. The digits of a number have no zero in front,
which the reader would refuse, and a negative integer is not minus zero, which would be no integer
(`integer_toString`).
-/

namespace VideoCatalog.Json.Reader

/-- What may follow a value on one line: nothing, a comma, or a closing bracket. -/
inductive Follows : List Char → Prop
  | nothing : Follows []
  | next {c : Char} {cs : List Char} : c = ',' ∨ c = ']' ∨ c = '\x7d' → Follows (c :: cs)

/-- It continues no numeral. -/
theorem Follows.not_isDigit {c : Char} {cs : List Char} (h : Follows (c :: cs)) :
    c.isDigit = false ∧ c ≠ '.' ∧ c ≠ 'e' ∧ c ≠ 'E' := by
  cases h with
  | next hc => rcases hc with rfl | rfl | rfl <;> decide

theorem skipGap_cons {c : Char} (h : isGap c = false) (cs : List Char) :
    skipGap (c :: cs) = c :: cs := by
  rw [skipGap, List.dropWhile_cons_of_neg (by simp [h])]

/-! ## Digits -/

theorem isDigit_of_mem_toDigits {n : Nat} {c : Char} (h : c ∈ Nat.toDigits 10 n) :
    c.isDigit = true :=
  Nat.isDigit_of_mem_toDigits (by decide) (by decide) h

theorem value_toDigits (n : Nat) : Numeral.value (Nat.toDigits 10 n) = n := by
  have hdigits := Text.digits?_toDigits n
  unfold Text.digits? at hdigits
  split at hdigits
  · cases hdigits
  · exact Option.some.inj hdigits

/-- Only zero is written with a zero in front. -/
theorem eq_zero_of_toDigits_eq {n : Nat} {ds : List Char} (h : Nat.toDigits 10 n = '0' :: ds) :
    n = 0 := by
  induction n using Nat.strongRecOn generalizing ds with
  | ind n ih =>
      rcases Nat.lt_or_ge n 10 with hlt | hge
      · have hsmall : ∀ k < 10, Nat.digitChar k = '0' → k = 0 := by decide
        rw [Nat.toDigits_of_lt_base hlt] at h
        exact hsmall n hlt (List.cons.inj h).1
      · rw [Nat.toDigits_of_base_le (by decide) hge] at h
        obtain ⟨d, es, hfirst⟩ := List.exists_cons_of_ne_nil
          (Nat.toDigits_ne_nil : Nat.toDigits 10 (n / 10) ≠ [])
        rw [hfirst, List.cons_append] at h
        obtain ⟨rfl, -⟩ := List.cons.inj h
        -- the number without its last digit is not zero
        have hzero : n / 10 = 0 := ih (n / 10) (by omega) hfirst
        omega

/-! ## Numerals -/

section

variable {rest : List Char} (atEnd : Fault)

theorem digitRow_toDigits (hrest : Follows rest) (n : Nat) :
    digitRow atEnd (Nat.toDigits 10 n ++ rest) = .ok (Nat.toDigits 10 n, rest) := by
  have hnone : rest.takeWhile Char.isDigit = [] ∧ rest.dropWhile Char.isDigit = rest := by
    cases rest with
    | nil => exact ⟨rfl, rfl⟩
    | cons c cs => simp [hrest.not_isDigit.1]
  have htake : (Nat.toDigits 10 n ++ rest).takeWhile Char.isDigit = Nat.toDigits 10 n := by
    rw [List.takeWhile_append_of_pos fun _ => isDigit_of_mem_toDigits, hnone.1, List.append_nil]
  have hdrop : (Nat.toDigits 10 n ++ rest).dropWhile Char.isDigit = rest := by
    rw [List.dropWhile_append_of_pos fun _ => isDigit_of_mem_toDigits, hnone.2]
  obtain ⟨d, ds, hdigits⟩ := List.exists_cons_of_ne_nil
    (Nat.toDigits_ne_nil : Nat.toDigits 10 n ≠ [])
  rw [digitRow, htake, hdrop, hdigits]

theorem wholeDigits_toDigits (hrest : Follows rest) (n : Nat) :
    wholeDigits atEnd (Nat.toDigits 10 n ++ rest) = .ok (Nat.toDigits 10 n, rest) := by
  obtain ⟨d, ds, hdigits⟩ := List.exists_cons_of_ne_nil
    (Nat.toDigits_ne_nil : Nat.toDigits 10 n ≠ [])
  by_cases hzero : d = '0'
  · subst hzero
    obtain rfl := eq_zero_of_toDigits_eq hdigits
    show wholeDigits atEnd ('0' :: rest) = .ok (['0'], rest)
    cases rest with
    | nil => rfl
    | cons c cs => simp [wholeDigits, hrest.not_isDigit.1]
  · have hrow := digitRow_toDigits atEnd hrest n
    rw [hdigits, List.cons_append] at hrow ⊢
    unfold wholeDigits
    split
    · next heq => exact absurd (List.cons.inj heq).1 hzero
    · exact hrow

theorem fractionPart_of_follows (hrest : Follows rest) :
    fractionPart atEnd rest = .ok (none, rest) := by
  cases rest with
  | nil => rfl
  | cons c cs =>
      unfold fractionPart
      split
      · next heq => exact absurd (List.cons.inj heq).1 hrest.not_isDigit.2.1
      · rfl

theorem exponentPart_of_follows (hrest : Follows rest) :
    exponentPart atEnd rest = .ok (none, rest) := by
  cases rest with
  | nil => rfl
  | cons c cs =>
      obtain ⟨-, -, hlower, hupper⟩ := hrest.not_isDigit
      simp [exponentPart, hlower, hupper]

/-- The numeral of an integer. -/
def numeralOf (i : Int) : Numeral :=
  ⟨decide (i < 0), Nat.toDigits 10 i.natAbs, none, none⟩

theorem toList_toString_int (i : Int) :
    (toString i).toList = (if i < 0 then ['-'] else []) ++ Nat.toDigits 10 i.natAbs := by
  rw [Int.toString_eq_repr, Int.repr_eq_if]
  rcases Int.lt_or_le i 0 with hneg | hnonneg
  · have habs : (-i).toNat = i.natAbs := by omega
    rw [if_neg (by omega), if_pos hneg, String.toList_append, Nat.toList_repr, habs]
    rfl
  · have habs : i.toNat = i.natAbs := by omega
    rw [if_pos hnonneg, if_neg (by omega), Nat.toList_repr, habs]
    rfl

theorem numeral_toString (hrest : Follows rest) (i : Int) :
    numeral atEnd ((toString i).toList ++ rest) = .ok (numeralOf i, rest) := by
  have hwhole := wholeDigits_toDigits atEnd hrest i.natAbs
  have hfraction := fractionPart_of_follows atEnd hrest
  have hexponent := exponentPart_of_follows atEnd hrest
  rw [toList_toString_int, List.append_assoc, numeralOf]
  by_cases hneg : i < 0
  · rw [if_pos hneg, List.singleton_append]
    simp only [numeral, hwhole, hfraction, hexponent, bind, Except.bind, hneg, decide_true]
  · rw [if_neg hneg, List.nil_append, numeral]
    · simp only [hwhole, hfraction, hexponent, bind, Except.bind, hneg, decide_false]
    · -- no digit is a minus sign
      intro cs heq
      obtain ⟨d, ds, hdigits⟩ := List.exists_cons_of_ne_nil
        (Nat.toDigits_ne_nil : Nat.toDigits 10 i.natAbs ≠ [])
      have hdigit : d.isDigit = true := isDigit_of_mem_toDigits (hdigits ▸ List.mem_cons_self)
      rw [hdigits, List.cons_append] at heq
      rw [(List.cons.inj heq).1] at hdigit
      exact absurd hdigit (by decide)

end

/-! ## Integers -/

theorem int?_numeralOf {i : Int} (hlow : -(Nat.pow 2 63 : Int) ≤ i)
    (hhigh : i < (UInt64.size : Int)) :
    (numeralOf i).int? = some i := by
  show (if decide (i < 0) then
      if Numeral.value (Nat.toDigits 10 i.natAbs) = 0 ||
        Numeral.value (Nat.toDigits 10 i.natAbs) > Nat.pow 2 63 then none
      else some (-(Numeral.value (Nat.toDigits 10 i.natAbs) : Int))
    else if Numeral.value (Nat.toDigits 10 i.natAbs) < UInt64.size then
      some (Numeral.value (Nat.toDigits 10 i.natAbs) : Int)
    else none) = some i
  rw [value_toDigits]
  have hsize : UInt64.size = 18446744073709551616 := rfl
  have hpower : Nat.pow 2 63 = 9223372036854775808 := rfl
  by_cases hneg : i < 0
  · have hbounds : ¬(i.natAbs = 0 ∨ i.natAbs > Nat.pow 2 63) := by omega
    have hvalue : -(i.natAbs : Int) = i := by omega
    simp only [hneg, decide_true, ↓reduceIte, Bool.or_eq_true, decide_eq_true_eq, hbounds, hvalue]
  · have hbound : i.natAbs < UInt64.size := by omega
    have hvalue : (i.natAbs : Int) = i := by omega
    simp only [hneg, decide_false, Bool.false_eq_true, ↓reduceIte, hbound, hvalue]

theorem isGap_of_mem_toString {i : Int} {c : Char} (h : c ∈ (toString i).toList) :
    isGap c = false := by
  obtain ⟨hcode, -⟩ := Text.toNat_of_mem_toString_int h
  rw [← Bool.not_eq_true]
  intro hgap
  have hcases : c = ' ' ∨ c = '\n' ∨ c = '\t' ∨ c = '\r' := by
    simpa [isGap, or_assoc] using hgap
  rcases hcases with rfl | rfl | rfl | rfl
  all_goals exact absurd hcode (by decide)

theorem exists_toString_eq (i : Int) :
    ∃ c cs, (toString i).toList = c :: cs ∧ (c = '-' ∨ c.isDigit = true) ∧ isGap c = false := by
  obtain ⟨c, cs, hcs⟩ : ∃ c cs, (toString i).toList = c :: cs := by
    refine List.exists_cons_of_ne_nil fun hnil => ?_
    rw [toList_toString_int] at hnil
    exact Nat.toDigits_ne_nil (List.append_eq_nil_iff.mp hnil).2
  have hmem : c ∈ (toString i).toList := hcs ▸ List.mem_cons_self
  exact ⟨c, cs, hcs, Text.mem_toString_int hmem, isGap_of_mem_toString hmem⟩

/-- An integer of at most 64 bits is read as it was written, if it lies between the bounds. -/
theorem integer_toString {low high i : Int} {rest : List Char} (hrest : Follows rest)
    (hleast : -(Nat.pow 2 63 : Int) ≤ low) (hgreatest : high < (UInt64.size : Int))
    (hlow : low ≤ i) (hhigh : i ≤ high) :
    integer low high ((toString i).toList ++ rest) = .ok (i, rest) := by
  have hint : (numeralOf i).int? = some i :=
    int?_numeralOf (Int.le_trans hleast hlow) (Int.lt_of_le_of_lt hhigh hgreatest)
  have hheld : heldNumeral ((toString i).toList ++ rest) = .ok (numeralOf i, rest) := by
    simp only [heldNumeral, numeral_toString .truncated hrest i, bind, Except.bind, hint,
      Option.isNone_some, Bool.false_and, Bool.false_eq_true, ↓reduceIte]
  obtain ⟨c, cs, hcs, hc, hgap⟩ := exists_toString_eq i
  rw [hcs, List.cons_append] at hheld ⊢
  rw [integer, skipGap_cons hgap]
  dsimp only
  rw [if_pos (by simpa using hc), hheld]
  simp [bind, Except.bind, hint, hlow, hhigh]

end VideoCatalog.Json.Reader
