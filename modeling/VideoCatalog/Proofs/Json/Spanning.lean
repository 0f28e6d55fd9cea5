import VideoCatalog.Proofs.Json.Extent
import VideoCatalog.Record.Json

/-!
# What a typed reader accepts is a value

A typed reader and the skipper go over the same characters (`Spanning.skip_eq`), though they do not
look at them in the same way: a surrogate pair is one escape to a reader of strings and two to the
skipper, a numeral too large to hold is refused where its value is wanted, and an array is read item
by item where the skipper keeps a stack. This holds for strings, integers, truth values and optional
values, for arrays if it holds for their items, and for objects with known members if it holds for
the values of these.
-/

namespace VideoCatalog.Json.Reader

variable {α β σ : Type} {cs rest : List Char}

/-- Whatever the reader accepts is a value, and the reader ends behind it. -/
def Spanning (reader : Reader α) : Prop :=
  ∀ cs a rest, reader cs = .ok (a, rest) → Spans cs rest

/-- A typed reader ends where skipping ends. -/
theorem Spanning.skip_eq {reader : Reader α} (h : Spanning reader) {a : α}
    (hread : reader cs = .ok (a, rest)) : skip cs = .ok ((), rest) :=
  (h cs a rest hread).skip_eq

theorem Spanning.length_lt {reader : Reader α} (h : Spanning reader) {a : α}
    (hread : reader cs = .ok (a, rest)) : rest.length < cs.length :=
  (h cs a rest hread).length_lt

/-! ## Strings -/

/-- An escape that stands for a character is skipped as one escape, or as two if it stands for both
halves of a surrogate pair. -/
theorem skippedEscape_cases {c : Char} (h : escaped cs = .ok (c, rest)) :
    (∃ d, skippedEscape cs = .ok (d, rest)) ∨
      ∃ d d' second, skippedEscape cs = .ok (d, '\x5c' :: second) ∧
        skippedEscape second = .ok (d', rest) := by
  unfold escaped at h
  split at h
  · cases h
  · obtain ⟨⟨code, after⟩, hquad, h⟩ := exists_of_bind_eq_ok h
    have hfirst : ∀ tail, skippedEscape ('u' :: tail) =
        (hexQuad tail).bind fun r => .ok (' ', r.2) := fun _ => rfl
    dsimp only at h
    split at h
    · cases h
    · split at h
      · -- the second half is an escape of its own
        unfold lowSurrogate at h
        split at h
        · cases h
        · next second =>
          obtain ⟨⟨low, last⟩, hlow, h⟩ := exists_of_bind_eq_ok h
          dsimp only at h
          split at h
          · obtain ⟨-, rfl⟩ := Prod.mk.inj (Except.ok.inj h)
            refine .inr ⟨' ', ' ', 'u' :: second, ?_, ?_⟩
            · rw [hfirst, hquad]
              rfl
            · rw [hfirst, hlow]
              rfl
          · cases h
        · cases h
        · cases h
      · cases h
        refine .inl ⟨' ', ?_⟩
        rw [hfirst, hquad]
        rfl
  · next d after hu =>
    split at h
    · next hsimple =>
      cases h
      refine .inl ⟨c, ?_⟩
      unfold skippedEscape
      split
      · next heq => cases heq
      · next heq => exact absurd (List.cons.inj heq).1 hu
      · next heq =>
        cases heq
        rw [hsimple]
    · cases h

theorem quotedChars_skipped {ds : List Char} {fuel fuel' : Nat}
    (h : quotedChars escaped fuel cs = .ok (ds, rest)) (hfuel : cs.length < fuel') :
    ∃ ds', quotedChars skippedEscape fuel' cs = .ok (ds', rest) := by
  induction fuel generalizing cs ds fuel' with
  | zero => cases h
  | succ fuel ih =>
      obtain ⟨fuel', rfl⟩ := Nat.exists_eq_succ_of_ne_zero (Nat.ne_zero_of_lt hfuel)
      cases cs with
      | nil => cases h
      | cons c cs =>
          have hfuel : cs.length < fuel' := Nat.lt_of_succ_lt_succ hfuel
          rw [quotedChars] at h ⊢
          split at h
          · next hquote =>
            cases h
            rw [if_pos hquote]
            exact ⟨_, rfl⟩
          · next hquote =>
            rw [if_neg hquote]
            split at h
            · next hbackslash =>
              rw [if_pos hbackslash]
              obtain ⟨⟨d, after⟩, hescape, h⟩ := exists_of_bind_eq_ok h
              obtain ⟨⟨ds', last⟩, hquoted, h⟩ := exists_of_bind_eq_ok h
              cases h
              rcases skippedEscape_cases hescape with
                ⟨d', hskipped⟩ | ⟨d', d'', second, hskipped, hskipped'⟩
              · have hlength := length_of_skippedEscape hskipped
                obtain ⟨es, hes⟩ := ih hquoted (Nat.lt_trans hlength hfuel)
                exact ⟨d' :: es, by rw [hskipped]; simp only [bind, Except.bind, hes]⟩
              · -- the second half of the pair is one more turn
                have hlength := length_of_skippedEscape hskipped
                have hlength' := length_of_skippedEscape hskipped'
                rw [List.length_cons] at hlength
                obtain ⟨fuel', rfl⟩ : ∃ n, fuel' = n + 1 := ⟨fuel' - 1, by omega⟩
                have hfuel' : after.length < fuel' := by omega
                obtain ⟨es, hes⟩ := ih hquoted hfuel'
                refine ⟨d' :: d'' :: es, ?_⟩
                rw [hskipped]
                simp only [bind, Except.bind]
                rw [quotedChars, if_neg (by decide), if_pos rfl, hskipped']
                simp only [bind, Except.bind, hes]
            · next hbackslash =>
              rw [if_neg hbackslash]
              split at h
              · cases h
              · next hcontrol =>
                rw [if_neg hcontrol]
                obtain ⟨⟨ds', last⟩, hquoted, h⟩ := exists_of_bind_eq_ok h
                cases h
                obtain ⟨es, hes⟩ := ih hquoted hfuel
                exact ⟨c :: es, by simp only [bind, Except.bind, hes]⟩

theorem skipQuoted_of_quoted {s : String} (h : quoted cs = .ok (s, rest)) :
    skipQuoted cs = .ok ((), rest) := by
  obtain ⟨⟨ds, after⟩, hquoted, h⟩ := exists_of_bind_eq_ok h
  cases h
  obtain ⟨ds', hskipped⟩ := quotedChars_skipped hquoted (Nat.lt_succ_self _)
  rw [skipQuoted, hskipped]
  rfl

theorem spanning_string : Spanning string := by
  intro cs s rest h
  unfold string at h
  split at h
  · next inside hgap =>
    refine .scalar hgap (by decide) (by decide) ?_
    exact skipQuoted_of_quoted h
  · cases h

/-! ## Numbers and words -/

section

variable {atEnd : Fault} (atEnd' : Fault)

/-- What is wrong at the end of the text does not matter to a numeral that is read. -/
theorem digitRow_eq_ok {ds : List Char} (h : digitRow atEnd cs = .ok (ds, rest)) :
    digitRow atEnd' cs = .ok (ds, rest) := by
  unfold digitRow at h ⊢
  cases htake : cs.takeWhile Char.isDigit with
  | nil =>
      rw [htake] at h
      cases hdrop : cs.dropWhile Char.isDigit with
      | nil =>
          rw [hdrop] at h
          cases h
      | cons c after =>
          rw [hdrop] at h
          cases h
  | cons d digits =>
      rw [htake] at h
      exact h

theorem wholeDigits_eq_ok {ds : List Char} (h : wholeDigits atEnd cs = .ok (ds, rest)) :
    wholeDigits atEnd' cs = .ok (ds, rest) := by
  unfold wholeDigits at h ⊢
  split at h
  · exact h
  · exact digitRow_eq_ok atEnd' h

theorem fractionPart_eq_ok {fraction : Option (List Char)}
    (h : fractionPart atEnd cs = .ok (fraction, rest)) :
    fractionPart atEnd' cs = .ok (fraction, rest) := by
  unfold fractionPart at h ⊢
  split at h
  · obtain ⟨⟨ds, after⟩, hrow, h⟩ := exists_of_bind_eq_ok h
    rw [digitRow_eq_ok atEnd' hrow]
    exact h
  · exact h

theorem exponentPart_eq_ok {exponent : Option (Bool × List Char)}
    (h : exponentPart atEnd cs = .ok (exponent, rest)) :
    exponentPart atEnd' cs = .ok (exponent, rest) := by
  unfold exponentPart at h ⊢
  split at h
  · next c tail =>
    split at h
    · next hexponent =>
      obtain ⟨⟨ds, last⟩, hrow, h⟩ := exists_of_bind_eq_ok h
      have hrow' : digitRow atEnd' (exponentSign tail).2 = .ok (ds, last) :=
        digitRow_eq_ok atEnd' hrow
      rw [if_pos hexponent]
      dsimp only
      rw [hrow']
      exact h
    · next hexponent =>
      rw [if_neg hexponent]
      exact h
  · exact h

theorem numeral_eq_ok {n : Numeral} (h : numeral atEnd cs = .ok (n, rest)) :
    numeral atEnd' cs = .ok (n, rest) := by
  unfold numeral at h ⊢
  dsimp only at h ⊢
  obtain ⟨⟨ds, after⟩, hwhole, h⟩ := exists_of_bind_eq_ok h
  obtain ⟨⟨fraction, after'⟩, hfraction, h⟩ := exists_of_bind_eq_ok h
  obtain ⟨⟨exponent, last⟩, hexponent, h⟩ := exists_of_bind_eq_ok h
  rw [wholeDigits_eq_ok atEnd' hwhole]
  simp only [bind, Except.bind] at h ⊢
  rw [fractionPart_eq_ok atEnd' hfraction]
  simp only
  rw [exponentPart_eq_ok atEnd' hexponent]
  exact h

end

theorem spanning_integer (low high : Int) : Spanning (integer low high) := by
  intro cs i rest h
  unfold integer at h
  split at h
  · cases h
  · next c inside hgap =>
    split at h
    · next hstart =>
      obtain ⟨⟨n, after⟩, hheld, h⟩ := exists_of_bind_eq_ok h
      obtain ⟨⟨n', after'⟩, hnumeral, hheld⟩ := exists_of_bind_eq_ok hheld
      have hends : after' = rest := by
        dsimp only at hheld h
        split at hheld
        · cases hheld
        · cases hheld
          split at h
          · split at h
            · cases h
              rfl
            · cases h
          · cases h
      subst hends
      have hc : c = '-' ∨ c.isDigit = true := by simpa using hstart
      have hne : ∀ d, d ≠ '-' → d.isDigit = false → c ≠ d := by
        rintro d hminus hdigit rfl
        rcases hc with rfl | hc
        · exact hminus rfl
        · rw [hdigit] at hc
          cases hc
      refine .scalar hgap (hne _ (by decide) (by decide)) (hne _ (by decide) (by decide)) ?_
      rw [skipScalar, if_neg (hne _ (by decide) (by decide)),
        if_neg (hne _ (by decide) (by decide)), if_neg (hne _ (by decide) (by decide)),
        if_neg (hne _ (by decide) (by decide)), if_pos hstart,
        numeral_eq_ok .malformed hnumeral]
      rfl
    · cases h

/-- What is read may be stored in another form. -/
theorem Spanning.map {reader : Reader α} (h : Spanning reader) (f : α → β) :
    Spanning (fun cs => do
      let (a, rest) ← reader cs
      .ok (f a, rest)) := by
  intro cs b rest hread
  obtain ⟨⟨a, after⟩, hfirst, hread⟩ := exists_of_bind_eq_ok hread
  cases hread
  exact h cs a _ hfirst

theorem spanning_int64 : Spanning int64 :=
  (spanning_integer _ _).map _

theorem spanning_int32 : Spanning int32 :=
  (spanning_integer _ _).map _

theorem Spanning.field {reader : Reader α} (h : Spanning reader) (name : String)
    (put : α → σ → σ) : Spanning (field name reader put).value :=
  h.map put

theorem spanning_truth : Spanning truth := by
  intro cs b rest h
  unfold truth at h
  split at h
  · next inside hgap =>
    obtain ⟨⟨_, after⟩, hword, h⟩ := exists_of_bind_eq_ok h
    cases h
    exact .scalar hgap (by decide) (by decide) hword
  · next inside hgap =>
    obtain ⟨⟨_, after⟩, hword, h⟩ := exists_of_bind_eq_ok h
    cases h
    exact .scalar hgap (by decide) (by decide) hword
  · cases h

theorem Spanning.optional {reader : Reader α} (h : Spanning reader) :
    Spanning (optional reader) := by
  intro cs o rest hread
  unfold Reader.optional at hread
  split at hread
  · next inside hgap =>
    obtain ⟨⟨_, after⟩, hword, hread⟩ := exists_of_bind_eq_ok hread
    cases hread
    exact .scalar hgap (by decide) (by decide) hword
  · obtain ⟨⟨a, after⟩, hvalue, hread⟩ := exists_of_bind_eq_ok hread
    cases hread
    exact .of_skipGap (h _ a _ hvalue)

/-! ## Arrays -/

theorem skipGap_of_nextItem_false {isFirst : Bool} (h : nextItem isFirst cs = .ok (false, rest)) :
    skipGap cs = ']' :: rest := by
  unfold nextItem at h
  split at h
  · cases h
  · next hgap =>
    cases h
    exact hgap
  · split at h
    · cases h
    · split at h
      · split at h <;> cases h
      · cases h

/-- Another item is a value behind the bracket or a comma. -/
theorem spansInside_of_nextItem {isFirst : Bool} {value after : List Char}
    (h : nextItem isFirst cs = .ok (true, value)) (hvalue : Spans value after)
    (hrest : SpansInside false false after rest) : SpansInside false isFirst cs rest := by
  unfold nextItem at h
  split at h
  · cases h
  · cases h
  · next c inside hclosing hgap =>
    have hcloses : closes false c = false := by simpa [closes] using hclosing
    split at h
    · next hfirst =>
      cases h
      subst hfirst
      exact .first hgap hcloses rfl hvalue hrest
    · next hfirst =>
      have hfirst : isFirst = false := by simpa using hfirst
      subst hfirst
      split at h
      · next hcomma =>
        subst hcomma
        split at h
        · cases h
        · cases h
        · cases h
          exact .next hgap rfl (.of_skipGap hvalue) hrest
      · cases h

theorem spansInside_of_items {item : Reader α} (hitem : Spanning item) {as : List α} {fuel : Nat}
    {isFirst : Bool} (h : items item fuel isFirst cs = .ok (as, rest)) :
    SpansInside false isFirst cs rest := by
  induction fuel generalizing isFirst cs as with
  | zero => cases h
  | succ fuel ih =>
      obtain ⟨⟨more, value⟩, hnext, h⟩ := exists_of_bind_eq_ok h
      cases more with
      | false =>
          cases h
          exact .closed (skipGap_of_nextItem_false hnext) rfl
      | true =>
          obtain ⟨⟨a, after⟩, hvalue, h⟩ := exists_of_bind_eq_ok h
          obtain ⟨⟨as', last⟩, hrest, h⟩ := exists_of_bind_eq_ok h
          cases h
          exact spansInside_of_nextItem hnext (hitem _ a _ hvalue) (ih hrest)

theorem Spanning.list {item : Reader α} (hitem : Spanning item) : Spanning (list item) := by
  intro cs as rest h
  unfold Reader.list at h
  split at h
  · next inside hgap => exact .array hgap (spansInside_of_items hitem h)
  · cases h

/-! ## Objects -/

/-- What `nextName` finds: the brace that closes, or a name between quotes behind the brace or a
comma. -/
theorem nextName_cases {isFirst : Bool} {found : Option String}
    (h : nextName isFirst cs = .ok (found, rest)) :
    (found = none ∧ skipGap cs = '\x7d' :: rest) ∨
      ∃ name tail, found = some name ∧ quoted tail = .ok (name, rest) ∧
        ((isFirst = true ∧ skipGap cs = '\x22' :: tail) ∨
          ∃ inside, isFirst = false ∧ skipGap cs = ',' :: inside ∧
            skipGap inside = '\x22' :: tail) := by
  unfold nextName at h
  split at h
  · cases h
  · next hgap =>
    cases h
    exact .inl ⟨rfl, hgap⟩
  · next c inside _ hgap =>
    right
    split at h
    · next hfirst =>
      split at h
      · next hquote =>
        obtain ⟨⟨name, after⟩, hquoted, h⟩ := exists_of_bind_eq_ok h
        cases h
        subst hquote
        exact ⟨name, inside, rfl, hquoted, .inl ⟨hfirst, hgap⟩⟩
      · cases h
    · next hfirst =>
      have hfirst : isFirst = false := by simpa using hfirst
      split at h
      · next hcomma =>
        subst hcomma
        split at h
        · cases h
        · next tail hgap' =>
          obtain ⟨⟨name, after⟩, hquoted, h⟩ := exists_of_bind_eq_ok h
          cases h
          exact ⟨name, tail, rfl, hquoted, .inr ⟨inside, hfirst, hgap, hgap'⟩⟩
        · cases h
      · cases h

theorem skipGap_of_nextName_none {isFirst : Bool} (h : nextName isFirst cs = .ok (none, rest)) :
    skipGap cs = '\x7d' :: rest := by
  rcases nextName_cases h with ⟨-, hgap⟩ | ⟨name, tail, hname, -⟩
  · exact hgap
  · cases hname

/-- Another member is a name, a colon and a value behind the brace or a comma. -/
theorem spansInside_of_nextName {isFirst : Bool} {name : String} {after value next : List Char}
    (h : nextName isFirst cs = .ok (some name, after)) (hcolon : colon after = .ok ((), value))
    (hvalue : Spans value next) (hrest : SpansInside true false next rest) :
    SpansInside true isFirst cs rest := by
  have hskip : ∀ {start tail : List Char}, skipGap start = '\x22' :: tail →
      quoted tail = .ok (name, after) → skipName true start = .ok value := by
    intro start tail hgap hquoted
    rw [skipName, if_pos rfl, hgap]
    simp only [bind, Except.bind, skipQuoted_of_quoted hquoted, hcolon]
  rcases nextName_cases h with ⟨hnone, -⟩ | ⟨name', tail, hname, hquoted, hplace⟩
  · cases hnone
  · cases hname
    rcases hplace with ⟨rfl, hgap⟩ | ⟨inside, rfl, hgap, hgap'⟩
    · have hquote : skipGap ('\x22' :: tail) = '\x22' :: tail := skipGap_cons rfl tail
      exact .first hgap rfl (hskip hquote hquoted) hvalue hrest
    · exact .next hgap (hskip hgap' hquoted) hvalue hrest

theorem spansInside_of_namedItems {item : Reader α} (hitem : Spanning item)
    {named : List (String × α)} {fuel : Nat} {isFirst : Bool}
    (h : namedItems item fuel isFirst cs = .ok (named, rest)) :
    SpansInside true isFirst cs rest := by
  induction fuel generalizing isFirst cs named with
  | zero => cases h
  | succ fuel ih =>
      obtain ⟨⟨found, after⟩, hname, h⟩ := exists_of_bind_eq_ok h
      cases found with
      | none =>
          cases h
          exact .closed (skipGap_of_nextName_none hname) rfl
      | some name =>
          obtain ⟨⟨_, value⟩, hcolon, h⟩ := exists_of_bind_eq_ok h
          obtain ⟨⟨a, next⟩, hvalue, h⟩ := exists_of_bind_eq_ok h
          obtain ⟨⟨named', last⟩, hrest, h⟩ := exists_of_bind_eq_ok h
          cases h
          exact spansInside_of_nextName hname hcolon (hitem _ a _ hvalue) (ih hrest)

end VideoCatalog.Json.Reader
