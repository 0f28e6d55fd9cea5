import VideoCatalog.Proofs.Json.Numerals
import VideoCatalog.Proofs.Outcome

/-!
# How far a value reaches

A value that nobody asked for is skipped with the open brackets on a stack, while a value of a type
is read by recursion over its parts. Both go over the same characters: `Spans cs rest` says that a
value begins at `cs` and ends where `rest` begins, whatever it is read as.

* skipping goes over a value: `Demands` writes down what a stack of open brackets still demands of
  the text, and every turn of the skipper takes one value or bracket off it (`spans_of_skip`);
* a value is gone over by skipping, for it has no more values and brackets in it than characters
  (`Spans.skip_eq`). So there is one place only where a value can end.
-/

namespace VideoCatalog.Json.Reader

variable {α β σ : Type} {cs rest : List Char}

theorem skipGap_skipGap (cs : List Char) : skipGap (skipGap cs) = skipGap cs := by
  induction cs with
  | nil => rfl
  | cons c cs ih =>
      cases hgap : isGap c with
      | false => rw [skipGap_cons hgap, skipGap_cons hgap]
      | true =>
          have hstep : skipGap (c :: cs) = skipGap cs := List.dropWhile_cons_of_pos hgap
          rw [hstep, ih]

/-! ## What is taken off -/

theorem length_skipGap_le (cs : List Char) : (skipGap cs).length ≤ cs.length :=
  (List.dropWhile_suffix isGap).length_le

theorem length_of_skipGap_eq {c : Char} {inside : List Char} (h : skipGap cs = c :: inside) :
    inside.length < cs.length := by
  have hle := length_skipGap_le cs
  rw [h, List.length_cons] at hle
  exact hle

theorem length_of_word {ws : List Char} (h : word ws cs = .ok ((), rest)) :
    rest.length ≤ cs.length := by
  induction ws generalizing cs with
  | nil =>
      cases h
      exact Nat.le_refl _
  | cons w ws ih =>
      cases cs with
      | nil => cases h
      | cons c cs =>
          rw [word] at h
          split at h
          · exact Nat.le_succ_of_le (ih h)
          · cases h

theorem length_of_hexQuad {n : Nat} (h : hexQuad cs = .ok (n, rest)) :
    rest.length < cs.length := by
  unfold hexQuad at h
  split at h
  · split at h
    · cases h
      simp only [List.length_cons]
      omega
    · cases h
  · split at h <;> cases h

theorem length_of_skippedEscape {d : Char} (h : skippedEscape cs = .ok (d, rest)) :
    rest.length < cs.length := by
  unfold skippedEscape at h
  split at h
  · cases h
  · obtain ⟨⟨n, after⟩, hquad, h⟩ := exists_of_bind_eq_ok h
    cases h
    exact Nat.lt_succ_of_lt (length_of_hexQuad hquad)
  · split at h
    · cases h
      exact Nat.lt_succ_self _
    · cases h

theorem length_of_quotedChars {ds : List Char} {fuel : Nat}
    (h : quotedChars skippedEscape fuel cs = .ok (ds, rest)) : rest.length < cs.length := by
  induction fuel generalizing cs ds with
  | zero => cases h
  | succ fuel ih =>
      cases cs with
      | nil => cases h
      | cons c cs =>
          rw [quotedChars] at h
          split at h
          · cases h
            exact Nat.lt_succ_self _
          · split at h
            · obtain ⟨⟨d, after⟩, hescape, h⟩ := exists_of_bind_eq_ok h
              obtain ⟨⟨ds', rest'⟩, hquoted, h⟩ := exists_of_bind_eq_ok h
              cases h
              have hescape := length_of_skippedEscape hescape
              have hquoted := ih hquoted
              rw [List.length_cons]
              omega
            · split at h
              · cases h
              · obtain ⟨⟨ds', rest'⟩, hquoted, h⟩ := exists_of_bind_eq_ok h
                cases h
                exact Nat.lt_succ_of_lt (ih hquoted)

theorem length_of_skipQuoted (h : skipQuoted cs = .ok ((), rest)) : rest.length < cs.length := by
  obtain ⟨⟨ds, after⟩, hquoted, h⟩ := exists_of_bind_eq_ok h
  cases h
  exact length_of_quotedChars hquoted

theorem length_of_digitRow {atEnd : Fault} {ds : List Char}
    (h : digitRow atEnd cs = .ok (ds, rest)) : rest.length < cs.length := by
  unfold digitRow at h
  cases htake : cs.takeWhile Char.isDigit with
  | nil =>
      rw [htake] at h
      cases hdrop : cs.dropWhile Char.isDigit with
      | nil =>
          rw [hdrop] at h
          cases h
      | cons c after =>
          rw [hdrop] at h
          cases h
  | cons d digits =>
      rw [htake] at h
      cases h
      have hsplit : (cs.takeWhile Char.isDigit ++ cs.dropWhile Char.isDigit).length = cs.length :=
        congrArg List.length List.takeWhile_append_dropWhile
      rw [htake, List.length_append, List.length_cons] at hsplit
      omega

theorem length_of_wholeDigits {atEnd : Fault} {ds : List Char}
    (h : wholeDigits atEnd cs = .ok (ds, rest)) : rest.length < cs.length := by
  unfold wholeDigits at h
  split at h
  · split at h
    · split at h
      · cases h
      · cases h
        exact Nat.lt_succ_self _
    · cases h
      exact Nat.one_pos
  · exact length_of_digitRow h

theorem length_of_fractionPart {atEnd : Fault} {fraction : Option (List Char)}
    (h : fractionPart atEnd cs = .ok (fraction, rest)) : rest.length ≤ cs.length := by
  unfold fractionPart at h
  split at h
  · obtain ⟨⟨ds, after⟩, hrow, h⟩ := exists_of_bind_eq_ok h
    cases h
    exact Nat.le_succ_of_le (Nat.le_of_lt (length_of_digitRow hrow))
  · cases h
    exact Nat.le_refl _

theorem length_exponentSign_le (cs : List Char) : (exponentSign cs).2.length ≤ cs.length := by
  unfold exponentSign
  split
  · exact Nat.le_succ _
  · exact Nat.le_succ _
  · exact Nat.le_refl _

theorem length_of_exponentPart {atEnd : Fault} {exponent : Option (Bool × List Char)}
    (h : exponentPart atEnd cs = .ok (exponent, rest)) : rest.length ≤ cs.length := by
  unfold exponentPart at h
  split at h
  · next c after =>
    split at h
    · obtain ⟨⟨ds, last⟩, hrow, h⟩ := exists_of_bind_eq_ok h
      cases h
      have hrow : rest.length < (exponentSign after).2.length := length_of_digitRow hrow
      have hsign := length_exponentSign_le after
      exact Nat.le_succ_of_le (Nat.le_of_lt (Nat.lt_of_lt_of_le hrow hsign))
    · cases h
      exact Nat.le_refl _
  · cases h
    exact Nat.le_refl _

theorem length_of_numeral {atEnd : Fault} {n : Numeral}
    (h : numeral atEnd cs = .ok (n, rest)) : rest.length < cs.length := by
  unfold numeral at h
  dsimp only at h
  obtain ⟨⟨ds, after⟩, hwhole, h⟩ := exists_of_bind_eq_ok h
  obtain ⟨⟨fraction, after'⟩, hfraction, h⟩ := exists_of_bind_eq_ok h
  obtain ⟨⟨exponent, last⟩, hexponent, h⟩ := exists_of_bind_eq_ok h
  cases h
  have hfraction : after'.length ≤ after.length := length_of_fractionPart hfraction
  have hexponent : last.length ≤ after'.length := length_of_exponentPart hexponent
  have hlast : last.length ≤ after.length := Nat.le_trans hexponent hfraction
  have hwhole := length_of_wholeDigits hwhole
  split at hwhole
  · exact Nat.lt_succ_of_lt (Nat.lt_of_le_of_lt hlast hwhole)
  · exact Nat.lt_of_le_of_lt hlast hwhole

theorem length_of_skipScalar (h : skipScalar cs = .ok ((), rest)) : rest.length < cs.length := by
  unfold skipScalar at h
  split at h
  · cases h
  · next c after =>
    split at h
    · exact Nat.lt_succ_of_le (length_of_word h)
    split at h
    · exact Nat.lt_succ_of_le (length_of_word h)
    split at h
    · exact Nat.lt_succ_of_le (length_of_word h)
    split at h
    · exact Nat.lt_succ_of_lt (length_of_skipQuoted h)
    split at h
    · obtain ⟨⟨n, last⟩, hnumeral, h⟩ := exists_of_bind_eq_ok h
      cases h
      exact length_of_numeral hnumeral
    · cases h

theorem length_of_colon (h : colon cs = .ok ((), rest)) : rest.length < cs.length := by
  unfold colon at h
  split at h
  · cases h
  · next hgap =>
    cases h
    exact length_of_skipGap_eq hgap
  · cases h

theorem length_of_skipName {brace : Bool} (h : skipName brace cs = .ok rest) :
    rest.length ≤ cs.length := by
  unfold skipName at h
  split at h
  · split at h
    · cases h
    · next hgap =>
      obtain ⟨⟨_, after⟩, hquoted, h⟩ := exists_of_bind_eq_ok h
      obtain ⟨⟨_, value⟩, hcolon, h⟩ := exists_of_bind_eq_ok h
      cases h
      have hgap := length_of_skipGap_eq hgap
      have hquoted := length_of_skipQuoted hquoted
      have hcolon := length_of_colon hcolon
      omega
    · cases h
  · cases h
    exact Nat.le_refl _

/-! ## Values -/

mutual
/-- A value begins at the first characters, and the others begin behind it. -/
inductive Spans : List Char → List Char → Prop
  | scalar {cs inside rest : List Char} {c : Char} : skipGap cs = c :: inside → c ≠ '[' →
      c ≠ '\x7b' → skipScalar (c :: inside) = .ok ((), rest) → Spans cs rest
  | array {cs inside rest : List Char} : skipGap cs = '[' :: inside →
      SpansInside false true inside rest → Spans cs rest
  | object {cs inside rest : List Char} : skipGap cs = '\x7b' :: inside →
      SpansInside true true inside rest → Spans cs rest

/-- Values follow inside an open bracket, a brace or not, from the first or a later one on; the
others begin behind the bracket that closes it. -/
inductive SpansInside : Bool → Bool → List Char → List Char → Prop
  | closed {brace isFirst : Bool} {cs rest : List Char} {c : Char} : skipGap cs = c :: rest →
      closes brace c = true → SpansInside brace isFirst cs rest
  | first {brace : Bool} {cs inside value after rest : List Char} {c : Char} :
      skipGap cs = c :: inside → closes brace c = false →
      skipName brace (c :: inside) = .ok value → Spans value after →
      SpansInside brace false after rest → SpansInside brace true cs rest
  | next {brace : Bool} {cs inside value after rest : List Char} :
      skipGap cs = ',' :: inside → skipName brace inside = .ok value → Spans value after →
      SpansInside brace false after rest → SpansInside brace false cs rest
end

/-- Gaps in front of a value do not count. -/
theorem Spans.of_skipGap (h : Spans (skipGap cs) rest) : Spans cs rest := by
  cases h with
  | scalar hgap hbracket hbrace hscalar =>
      rw [skipGap_skipGap] at hgap
      exact .scalar hgap hbracket hbrace hscalar
  | array hgap hinside =>
      rw [skipGap_skipGap] at hgap
      exact .array hgap hinside
  | object hgap hinside =>
      rw [skipGap_skipGap] at hgap
      exact .object hgap hinside

/-! ## Skipping goes over a value -/

/-- The skipper goes on from a state. -/
def proceed (fuel : Nat) : Except Fault SkipState → Except Fault (Unit × List Char)
  | .error fault => .error fault
  | .ok (.finished rest) => .ok ((), rest)
  | .ok (.expecting opened rest) => skipNested fuel opened rest

theorem bind_eq_proceed {fuel : Nat} {f : SkipState → Except Fault (Unit × List Char)}
    (hfinished : ∀ rest, f (.finished rest) = .ok ((), rest))
    (hexpecting : ∀ opened rest, f (.expecting opened rest) = skipNested fuel opened rest)
    (x : Except Fault SkipState) : x >>= f = proceed fuel x := by
  cases x with
  | error fault => rfl
  | ok state =>
      cases state with
      | finished rest => exact hfinished rest
      | expecting opened rest => exact hexpecting opened rest

theorem skipNested_succ {c : Char} {inside : List Char} (hgap : skipGap cs = c :: inside)
    (fuel : Nat) (opened : List Bool) :
    skipNested (fuel + 1) opened cs = proceed fuel (
      if c = '[' then skipOpening opened false inside
      else if c = '\x7b' then skipOpening opened true inside
      else do
        let (_, rest) ← skipScalar (c :: inside)
        skipClosing opened rest) := by
  rw [skipNested, hgap]
  dsimp only
  split
  · exact bind_eq_proceed (fun _ => rfl) (fun _ _ => rfl) _
  · split
    · exact bind_eq_proceed (fun _ => rfl) (fun _ _ => rfl) _
    · cases skipScalar (c :: inside) with
      | error fault => rfl
      | ok result => exact bind_eq_proceed (fun _ => rfl) (fun _ _ => rfl) _

/-- Behind a value inside these open brackets, innermost first, the text still closes all of
them. -/
def Demands : List Bool → List Char → List Char → Prop
  | [], cs, rest => cs = rest
  | brace :: outer, cs, rest =>
    ∃ middle, SpansInside brace false cs middle ∧ Demands outer middle rest

/-- From here the skipper still has to go over the value that is due, and to the end of the
brackets that are open. -/
def Reaches : SkipState → List Char → Prop
  | .finished cs, rest => cs = rest
  | .expecting opened cs, rest => ∃ after, Spans cs after ∧ Demands opened after rest

theorem demands_of_skipClosing {opened : List Bool} {state : SkipState}
    (h : skipClosing opened cs = .ok state) (hreaches : Reaches state rest) :
    Demands opened cs rest := by
  induction opened generalizing cs with
  | nil =>
      cases h
      exact hreaches
  | cons brace outer ih =>
      unfold skipClosing at h
      split at h
      · cases h
      · next c inside hgap =>
        split at h
        · next hcomma =>
          obtain ⟨value, hname, h⟩ := exists_of_bind_eq_ok h
          cases h
          obtain ⟨after, hvalue, middle, hinside, houter⟩ := hreaches
          subst hcomma
          exact ⟨middle, .next hgap hname hvalue hinside, houter⟩
        · split at h
          · next hcloses => exact ⟨inside, .closed hgap hcloses, ih h⟩
          · cases h

theorem demands_of_skipOpening {opened : List Bool} {brace : Bool} {state : SkipState}
    (h : skipOpening opened brace cs = .ok state) (hreaches : Reaches state rest) :
    ∃ middle, SpansInside brace true cs middle ∧ Demands opened middle rest := by
  unfold skipOpening at h
  split at h
  · cases h
  · next c inside hgap =>
    split at h
    · next hcloses => exact ⟨inside, .closed hgap hcloses, demands_of_skipClosing h hreaches⟩
    · next hcloses =>
      obtain ⟨value, hname, h⟩ := exists_of_bind_eq_ok h
      cases h
      obtain ⟨after, hvalue, middle, hinside, houter⟩ := hreaches
      have hcloses : closes brace c = false := by simpa using hcloses
      exact ⟨middle, .first hgap hcloses hname hvalue hinside, houter⟩

/-- One turn of the skipper takes a value or a bracket off what is due. -/
theorem reaches_of_skipNested {fuel : Nat} {opened : List Bool}
    (h : skipNested fuel opened cs = .ok ((), rest)) : Reaches (.expecting opened cs) rest := by
  induction fuel generalizing opened cs with
  | zero => cases h
  | succ fuel ih =>
      have hreaches : ∀ x : Except Fault SkipState, proceed fuel x = .ok ((), rest) →
          ∃ state, x = .ok state ∧ Reaches state rest := by
        intro x hx
        cases x with
        | error fault => cases hx
        | ok state =>
            cases state with
            | finished after =>
                cases hx
                exact ⟨_, rfl, rfl⟩
            | expecting opened value => exact ⟨_, rfl, ih hx⟩
      cases hgap : skipGap cs with
      | nil =>
          rw [skipNested, hgap] at h
          cases h
      | cons c inside =>
          rw [skipNested_succ hgap] at h
          obtain ⟨state, hstate, hreaches⟩ := hreaches _ h
          split at hstate
          · next hbracket =>
            subst hbracket
            obtain ⟨middle, hinside, houter⟩ := demands_of_skipOpening hstate hreaches
            exact ⟨middle, .array hgap hinside, houter⟩
          · next hbracket =>
            split at hstate
            · next hbrace =>
              subst hbrace
              obtain ⟨middle, hinside, houter⟩ := demands_of_skipOpening hstate hreaches
              exact ⟨middle, .object hgap hinside, houter⟩
            · next hbrace =>
              obtain ⟨⟨_, after⟩, hscalar, hstate⟩ := exists_of_bind_eq_ok hstate
              refine ⟨after, .scalar hgap hbracket hbrace hscalar, ?_⟩
              exact demands_of_skipClosing hstate hreaches

theorem spans_of_skip (h : skip cs = .ok ((), rest)) : Spans cs rest := by
  obtain ⟨after, hvalue, hend⟩ := reaches_of_skipNested h
  exact hend ▸ hvalue

/-! ## What a value is, skipping goes over -/

mutual
/-- Going over a value takes as many turns as it has values and brackets in it, and those are no
more than its characters. -/
theorem Spans.turns : ∀ {cs rest : List Char}, Spans cs rest →
    ∃ k, rest.length + k ≤ cs.length ∧ 0 < k ∧ ∀ fuel opened,
      skipNested (fuel + k) opened cs = proceed fuel (skipClosing opened rest)
  | cs, rest, .scalar hgap hbracket hbrace hscalar => by
      refine ⟨1, ?_, Nat.one_pos, fun fuel opened => ?_⟩
      · have hlength := length_of_skipScalar hscalar
        have hle := length_skipGap_le cs
        rw [hgap] at hle
        omega
      · rw [skipNested_succ hgap, if_neg hbracket, if_neg hbrace, hscalar]
        rfl
  | cs, rest, .array hgap hinside => by
      obtain ⟨k, hk, hturns⟩ := hinside.turns
      refine ⟨k + 1, ?_, Nat.succ_pos k, fun fuel opened => ?_⟩
      · have hlength := length_of_skipGap_eq hgap
        omega
      · rw [← Nat.add_assoc, skipNested_succ hgap, if_pos rfl]
        exact hturns fuel opened
  | cs, rest, .object hgap hinside => by
      obtain ⟨k, hk, hturns⟩ := hinside.turns
      refine ⟨k + 1, ?_, Nat.succ_pos k, fun fuel opened => ?_⟩
      · have hlength := length_of_skipGap_eq hgap
        omega
      · rw [← Nat.add_assoc, skipNested_succ hgap, if_neg (by decide), if_pos rfl]
        exact hturns fuel opened

theorem SpansInside.turns : ∀ {brace isFirst : Bool} {cs rest : List Char},
    SpansInside brace isFirst cs rest →
    ∃ k, rest.length + k ≤ cs.length ∧ ∀ fuel opened,
      proceed (fuel + k)
        (if isFirst then skipOpening opened brace cs else skipClosing (brace :: opened) cs) =
          proceed fuel (skipClosing opened rest)
  | brace, isFirst, cs, rest, .closed hgap hcloses => by
      refine ⟨0, Nat.le_of_lt (length_of_skipGap_eq hgap), fun fuel opened => ?_⟩
      have hcomma : ∀ c, closes brace c = true → c ≠ ',' := by
        rintro c hc rfl
        cases brace <;> cases hc
      cases isFirst with
      | true =>
          rw [if_pos rfl, skipOpening, hgap]
          dsimp only
          rw [if_pos hcloses]
          rfl
      | false =>
          rw [if_neg (by decide), skipClosing, hgap]
          dsimp only
          rw [if_neg (hcomma _ hcloses), if_pos hcloses]
          rfl
  | brace, _, cs, rest, .first hgap hcloses hname hvalue hinside => by
      obtain ⟨k, hk, -, hturns⟩ := hvalue.turns
      obtain ⟨k', hk', hturns'⟩ := hinside.turns
      refine ⟨k' + k, ?_, fun fuel opened => ?_⟩
      · have hle := length_skipGap_le cs
        have hname := length_of_skipName hname
        rw [hgap] at hle
        omega
      · rw [if_pos rfl, skipOpening, hgap]
        dsimp only
        rw [if_neg (by simp [hcloses]), hname, ← Nat.add_assoc]
        exact (hturns (fuel + k') (brace :: opened)).trans (hturns' fuel opened)
  | brace, _, cs, rest, .next hgap hname hvalue hinside => by
      obtain ⟨k, hk, -, hturns⟩ := hvalue.turns
      obtain ⟨k', hk', hturns'⟩ := hinside.turns
      refine ⟨k' + k, ?_, fun fuel opened => ?_⟩
      · have hgap := length_of_skipGap_eq hgap
        have hname := length_of_skipName hname
        omega
      · rw [if_neg (by decide), skipClosing, hgap]
        dsimp only
        rw [if_pos rfl, hname, ← Nat.add_assoc]
        exact (hturns (fuel + k') (brace :: opened)).trans (hturns' fuel opened)
end

theorem Spans.length_lt (h : Spans cs rest) : rest.length < cs.length := by
  obtain ⟨k, hk, hpos, -⟩ := h.turns
  omega

theorem Spans.skip_eq (h : Spans cs rest) : skip cs = .ok ((), rest) := by
  obtain ⟨k, hk, -, hturns⟩ := h.turns
  have hfuel : cs.length + 1 = cs.length + 1 - k + k := by omega
  rw [skip, hfuel, hturns]
  rfl

end VideoCatalog.Json.Reader
