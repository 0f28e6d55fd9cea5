import VideoCatalog.Json.Reader

/-!
# Strings are read as they were quoted

A string is written between quotes with some of its characters escaped. Reading goes through the
written characters one escape at a time, so a step of it undoes one character (`quotedChars_escape`)
and the whole of it the string (`quoted_escaped`), whatever stands behind the closing quote.
-/

namespace VideoCatalog.Json.Reader

/-! ## Hexadecimal digits -/

theorem hexValue?_hexDigit {n : Nat} (h : n < 16) : hexValue? (hexDigit n) = some n := by
  have hall : ∀ n < 16, hexValue? (hexDigit n) = some n := by decide
  exact hall n h

theorem hexQuad_hexDigit {n : Nat} (h : n < 0x20) (rest : List Char) :
    hexQuad ('0' :: '0' :: hexDigit (n / 16) :: hexDigit (n % 16) :: rest) = .ok (n, rest) := by
  have hzero : hexValue? '0' = some 0 := by decide
  have hhigh : hexValue? (hexDigit (n / 16)) = some (n / 16) := hexValue?_hexDigit (by omega)
  have hlow : hexValue? (hexDigit (n % 16)) = some (n % 16) :=
    hexValue?_hexDigit (Nat.mod_lt _ (by decide))
  have hvalue : ((0 * 16 + 0) * 16 + n / 16) * 16 + n % 16 = n := by omega
  rw [hexQuad]
  simp only [hzero, hhigh, hlow, hvalue]

/-! ## Escapes -/

theorem eq_ofNat_of_toNat {c : Char} {n : Nat} (h : c.toNat = n) : c = Char.ofNat n := by
  rw [← h, Char.ofNat_toNat]

/-- What may stand for a character between quotes: the character itself, or an escape of it. -/
inductive StandsFor (c : Char) : List Char → Prop
  | itself : c ≠ '\x22' → c ≠ '\x5c' → ¬c.toNat < 0x20 → StandsFor c [c]
  | escape {written : List Char} : (∀ rest, escaped (written ++ rest) = .ok (c, rest)) →
      StandsFor c ('\x5c' :: written)

theorem StandsFor.length_pos {c : Char} {written : List Char} (h : StandsFor c written) :
    0 < written.length := by
  cases h with
  | itself => exact Nat.one_pos
  | escape => exact Nat.succ_pos _

theorem StandsFor.simple {c d : Char} {n : Nat} (h : c.toNat = n)
    (hd : simpleEscape? d = some (Char.ofNat n)) : StandsFor c ['\x5c', d] := by
  refine .escape fun rest => ?_
  rw [eq_ofNat_of_toNat h, List.singleton_append]
  unfold escaped
  split
  · next heq => cases heq
  · next heq =>
    obtain rfl : d = 'u' := (List.cons.inj heq).1
    cases hd
  · next heq =>
    cases heq
    rw [hd]

theorem StandsFor.control {c : Char} (h : c.toNat < 0x20) :
    StandsFor c ['\x5c', 'u', '0', '0', hexDigit (c.toNat / 16), hexDigit (c.toNat % 16)] := by
  refine .escape fun rest => ?_
  have hescaped : ∀ tail, escaped ('u' :: tail) = (hexQuad tail).bind fun r =>
      if 0xDC00 ≤ r.1 && r.1 ≤ 0xDFFF then .error .malformed
      else if 0xD800 ≤ r.1 && r.1 ≤ 0xDBFF then lowSurrogate r.1 r.2
      else .ok (Char.ofNat r.1, r.2) := fun _ => rfl
  -- a control character is none of the halves of surrogate pairs
  have hlow : ¬(0xDC00 ≤ c.toNat && c.toNat ≤ 0xDFFF) = true := by
    simp
    omega
  have hhigh : ¬(0xD800 ≤ c.toNat && c.toNat ≤ 0xDBFF) = true := by
    simp
    omega
  show escaped ('u' :: '0' :: '0' :: hexDigit (c.toNat / 16) :: hexDigit (c.toNat % 16) :: rest) = _
  rw [hescaped, hexQuad_hexDigit h]
  show (if _ then _ else _) = _
  rw [if_neg hlow, if_neg hhigh, Char.ofNat_toNat]

theorem standsFor_escapeChar (c : Char) : StandsFor c (escapeChar c) := by
  unfold escapeChar
  dsimp only
  split
  · next hquote => exact .simple hquote rfl
  split
  · next hbackslash => exact .simple hbackslash rfl
  iterate 5
    split
    · next hcode => exact .simple hcode rfl
  split
  · next hcontrol => exact .control hcontrol
  · next hquote hbackslash _ _ _ _ _ hcontrol =>
    refine .itself ?_ ?_ hcontrol
    · rintro rfl
      exact hquote rfl
    · rintro rfl
      exact hbackslash rfl

/-! ## Strings -/

theorem quotedChars_escape (c : Char) (rest : List Char) (fuel : Nat) :
    quotedChars escaped (fuel + 1) (escapeChar c ++ rest) =
      (quotedChars escaped fuel rest).bind fun r => .ok (c :: r.1, r.2) := by
  have hstands := standsFor_escapeChar c
  generalize escapeChar c = written at hstands ⊢
  cases hstands with
  | itself hquote hbackslash hcontrol =>
      rw [List.singleton_append, quotedChars, if_neg hquote, if_neg hbackslash, if_neg hcontrol]
      rfl
  | escape h =>
      rw [List.cons_append, quotedChars, if_neg (by decide), if_pos rfl, h rest]
      rfl

theorem quotedChars_escaped (cs rest : List Char) {fuel : Nat} (h : cs.length < fuel) :
    quotedChars escaped fuel (cs.flatMap escapeChar ++ '\x22' :: rest) = .ok (cs, rest) := by
  induction cs generalizing fuel with
  | nil =>
      obtain ⟨fuel, rfl⟩ := Nat.exists_eq_succ_of_ne_zero (Nat.ne_zero_of_lt h)
      rw [List.flatMap_nil, List.nil_append, quotedChars, if_pos rfl]
  | cons c cs ih =>
      obtain ⟨fuel, rfl⟩ := Nat.exists_eq_succ_of_ne_zero (Nat.ne_zero_of_lt h)
      rw [List.flatMap_cons, List.append_assoc, quotedChars_escape,
        ih (Nat.lt_of_succ_lt_succ h)]
      rfl

theorem length_le_length_flatMap_escapeChar (cs : List Char) :
    cs.length ≤ (cs.flatMap escapeChar).length := by
  induction cs with
  | nil => exact Nat.le_refl 0
  | cons c cs ih =>
      have hpos := (standsFor_escapeChar c).length_pos
      rw [List.flatMap_cons, List.length_append, List.length_cons]
      omega

/-- A string is read as it was quoted, whatever comes after it. -/
theorem quoted_escaped (s : String) (rest : List Char) :
    quoted (s.toList.flatMap escapeChar ++ '\x22' :: rest) = .ok (s, rest) := by
  have hlength : s.toList.length <
      (s.toList.flatMap escapeChar ++ '\x22' :: rest).length + 1 := by
    have hle := length_le_length_flatMap_escapeChar s.toList
    rw [List.length_append]
    omega
  rw [quoted, quotedChars_escaped _ _ hlength]
  show Except.ok (String.ofList s.toList, rest) = _
  rw [String.ofList_toList]

theorem toList_quote (s : String) :
    (quote s).toList = '\x22' :: (s.toList.flatMap escapeChar ++ ['\x22']) := by
  simp [quote]

theorem string_quote (s : String) (rest : List Char) :
    string ((quote s).toList ++ rest) = .ok (s, rest) := by
  rw [toList_quote, List.cons_append, List.append_assoc, List.singleton_append]
  exact quoted_escaped s rest

end VideoCatalog.Json.Reader
