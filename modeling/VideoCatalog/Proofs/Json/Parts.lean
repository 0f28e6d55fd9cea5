import Mathlib.Data.List.Forall2
import VideoCatalog.Proofs.Json.Compact
import VideoCatalog.Proofs.Json.Spanning

/-!
# What an object with known members is read from

`parts` takes a text apart without knowing what its members are for: every name with the characters
where its value begins, in the order of the text; an array stands for its items under the names of
the known members, in their order. Whatever `record` accepts can be taken apart so
(`parts_of_record`), and the fields have then been applied to the parts one by one (`Applies`): a
known member changes what has been read so far and occurs once, an unknown member changes nothing.

A field that no other field touches therefore ends as its one member says, or stays as it was at
first if no member bears its name (`Applies.member`).
-/

namespace VideoCatalog.Json.Reader

variable {α β σ : Type} {cs rest : List Char}

/-- The reader reads `a` off the front of these characters. -/
def Reads (reader : Reader α) (cs : List Char) (a : α) : Prop :=
  ∃ rest, reader cs = .ok (a, rest)

/-! ## Taking a text apart -/

/-- A value left as it is written: the characters from it on. -/
def raw : Reader (List Char) := fun cs => do
  let (_, rest) ← skip cs
  .ok (cs, rest)

/-- The members of an object or, under the names given, of the array of them in order. -/
def parts (names : List String) : Reader (List (String × List Char)) := fun cs =>
  match skipGap cs with
  | '[' :: rest => do
    let (values, rest) ← items raw (rest.length + 1) true rest
    .ok (names.zip values, rest)
  | '\x7b' :: rest => namedItems raw (rest.length + 1) true rest
  | rest => .error (refuse rest)

theorem parts_of_bracket {inside : List Char} (hgap : skipGap cs = '[' :: inside)
    (names : List String) :
    parts names cs = (items raw (inside.length + 1) true inside).bind fun r =>
      .ok (names.zip r.1, r.2) := by
  rw [parts, hgap]
  rfl

theorem parts_of_brace {inside : List Char} (hgap : skipGap cs = '\x7b' :: inside)
    (names : List String) : parts names cs = namedItems raw (inside.length + 1) true inside := by
  rw [parts, hgap]
  rfl

theorem raw_of_skip (h : skip cs = .ok ((), rest)) : raw cs = .ok (cs, rest) := by
  rw [raw, h]
  rfl

theorem Spanning.raw_eq {reader : Reader α} (h : Spanning reader) {a : α}
    (hread : reader cs = .ok (a, rest)) : raw cs = .ok (cs, rest) :=
  raw_of_skip (h.skip_eq hread)

theorem spanning_raw : Spanning raw := by
  intro cs value rest h
  obtain ⟨⟨_, after⟩, hskip, h⟩ := exists_of_bind_eq_ok h
  cases h
  exact spans_of_skip hskip

theorem spanning_parts (names : List String) : Spanning (parts names) := by
  intro cs ms rest h
  unfold parts at h
  split at h
  · next inside hgap =>
    obtain ⟨⟨values, after⟩, hitems, h⟩ := exists_of_bind_eq_ok h
    cases h
    exact .array hgap (spansInside_of_items spanning_raw hitems)
  · next inside hgap => exact .object hgap (spansInside_of_namedItems spanning_raw h)
  · cases h

theorem items_raw {item : Reader α} (hitem : Spanning item) {as : List α} {fuel : Nat}
    {isFirst : Bool} (h : items item fuel isFirst cs = .ok (as, rest)) :
    ∃ values, items raw fuel isFirst cs = .ok (values, rest) ∧
      List.Forall₂ (Reads item) values as := by
  induction fuel generalizing isFirst cs as with
  | zero => cases h
  | succ fuel ih =>
      rw [items] at h ⊢
      obtain ⟨⟨more, value⟩, hnext, h⟩ := exists_of_bind_eq_ok h
      rw [hnext]
      cases more with
      | false =>
          cases h
          exact ⟨[], rfl, .nil⟩
      | true =>
          obtain ⟨⟨a, after⟩, hvalue, h⟩ := exists_of_bind_eq_ok h
          obtain ⟨⟨as', last⟩, hrest, h⟩ := exists_of_bind_eq_ok h
          cases h
          obtain ⟨values, hvalues, hreads⟩ := ih hrest
          refine ⟨value :: values, ?_, .cons ⟨after, hvalue⟩ hreads⟩
          simp only [bind, Except.bind, ↓reduceIte, hitem.raw_eq hvalue, hvalues]

/-- The items of an array, as they are written and as they are read. -/
theorem list_raw {item : Reader α} (hitem : Spanning item) {as : List α}
    (h : list item cs = .ok (as, rest)) :
    ∃ values, list raw cs = .ok (values, rest) ∧ List.Forall₂ (Reads item) values as := by
  unfold list at h ⊢
  split at h
  · exact items_raw hitem h
  · cases h

/-! ## Applying the fields -/

/-- The fields are applied to these members in their order, after those whose names have been seen,
and take what is there at first to what is there in the end. -/
inductive Applies (fields : List (Field σ)) :
    List String → σ → List (String × List Char) → σ → Prop
  | nil {seen : List String} {s : σ} : Applies fields seen s [] s
  | known {seen : List String} {s s' : σ} {name : String} {value : List Char} {f : Field σ}
      {put : σ → σ} {ms : List (String × List Char)} : field? fields name = some f →
      name ∉ seen → Reads f.value value put → Applies fields (name :: seen) (put s) ms s' →
      Applies fields seen s ((name, value) :: ms) s'
  | unknown {seen : List String} {s s' : σ} {name : String} {value : List Char}
      {ms : List (String × List Char)} : field? fields name = none →
      Applies fields seen s ms s' → Applies fields seen s ((name, value) :: ms) s'

theorem field?_of_mem {fields : List (Field σ)} (hnodup : (fields.map Field.name).Nodup)
    {f : Field σ} (hf : f ∈ fields) : field? fields f.name = some f := by
  induction fields with
  | nil => cases hf
  | cons g fields ih =>
      obtain ⟨hg, hnodup⟩ := List.nodup_cons.mp hnodup
      rcases List.mem_cons.mp hf with rfl | hf
      · exact List.find?_cons_of_pos (beq_self_eq_true _)
      · have hne : g.name ≠ f.name := by
          intro heq
          exact hg (heq ▸ List.mem_map_of_mem hf)
        have hskip : field? (g :: fields) f.name = field? fields f.name :=
          List.find?_cons_of_neg (by simpa using hne)
        rw [hskip, ih hnodup hf]

/-- Fields that a text can be taken apart for: no two have the same name, and each reads a value. -/
structure Separate (fields : List (Field σ)) : Prop where
  nodup : (fields.map Field.name).Nodup
  spanning : ∀ f ∈ fields, Spanning f.value

section

variable {fields : List (Field σ)} {seen : List String} {s s' : σ}

theorem namedItems_of_members (hfields : ∀ f ∈ fields, Spanning f.value) {fuel : Nat}
    {isFirst : Bool} (h : members fields fuel isFirst seen s cs = .ok (s', rest)) :
    ∃ ms, namedItems raw fuel isFirst cs = .ok (ms, rest) ∧ Applies fields seen s ms s' := by
  induction fuel generalizing isFirst seen s cs with
  | zero => cases h
  | succ fuel ih =>
      rw [members] at h
      rw [namedItems]
      obtain ⟨⟨found, after⟩, hname, h⟩ := exists_of_bind_eq_ok h
      rw [hname]
      cases found with
      | none =>
          cases h
          exact ⟨[], rfl, .nil⟩
      | some name =>
          dsimp only at h
          split at h
          · next f hf =>
            split at h
            · cases h
            · next hseen =>
              obtain ⟨⟨_, value⟩, hcolon, h⟩ := exists_of_bind_eq_ok h
              obtain ⟨⟨put, next⟩, hvalue, h⟩ := exists_of_bind_eq_ok h
              obtain ⟨ms, hms, happlies⟩ := ih h
              have hraw := (hfields f (List.mem_of_find?_eq_some hf)).raw_eq hvalue
              refine ⟨(name, value) :: ms, ?_, ?_⟩
              · simp only [bind, Except.bind, hcolon, hraw, hms]
              · exact .known hf (by simpa using hseen) ⟨next, hvalue⟩ happlies
          · next hf =>
            obtain ⟨⟨_, value⟩, hcolon, h⟩ := exists_of_bind_eq_ok h
            obtain ⟨⟨_, next⟩, hskip, h⟩ := exists_of_bind_eq_ok h
            obtain ⟨ms, hms, happlies⟩ := ih h
            refine ⟨(name, value) :: ms, ?_, .unknown hf happlies⟩
            simp only [bind, Except.bind, hcolon, raw_of_skip hskip, hms]

theorem length_of_nextItem {isFirst more : Bool} (h : nextItem isFirst cs = .ok (more, rest)) :
    rest.length ≤ cs.length := by
  have hgap := length_skipGap_le cs
  unfold nextItem at h
  split at h
  · cases h
  · next heq =>
    cases h
    exact Nat.le_of_lt (length_of_skipGap_eq heq)
  · next c inside _ heq =>
    have hinside := length_of_skipGap_eq heq
    have hgap' := length_skipGap_le inside
    split at h
    · cases h
      rw [heq] at hgap
      exact hgap
    · split at h
      · split at h
        · cases h
        · cases h
        · cases h
          omega
      · cases h

/-- The fields still to come are applied to the items under their names. -/
theorem items_of_positions {later : List (Field σ)}
    (hlater : ∀ f ∈ later, field? fields f.name = some f ∧ f.name ∉ seen ∧ Spanning f.value)
    (hnodup : (later.map Field.name).Nodup) {fuel : Nat} {isFirst : Bool}
    (h : positions later isFirst s cs = .ok (s', rest)) (hfuel : cs.length < fuel) :
    ∃ values, items raw fuel isFirst cs = .ok (values, rest) ∧
      Applies fields seen s ((later.map Field.name).zip values) s' := by
  induction later generalizing seen s cs isFirst fuel with
  | nil =>
      obtain ⟨fuel, rfl⟩ := Nat.exists_eq_succ_of_ne_zero (Nat.ne_zero_of_lt hfuel)
      rw [positions] at h
      split at h
      · cases h
      · next hgap =>
        cases h
        have hnext : nextItem isFirst cs = .ok (false, rest) := by
          rw [nextItem, hgap]
          rfl
        refine ⟨[], ?_, .nil⟩
        rw [items, hnext]
        rfl
      · cases h
  | cons f later ih =>
      obtain ⟨fuel, rfl⟩ := Nat.exists_eq_succ_of_ne_zero (Nat.ne_zero_of_lt hfuel)
      obtain ⟨⟨hf, hseen, hspanning⟩, hlater⟩ := List.forall_mem_cons.mp hlater
      obtain ⟨hnew, hnodup⟩ := List.nodup_cons.mp hnodup
      rw [positions] at h
      obtain ⟨⟨more, value⟩, hnext, h⟩ := exists_of_bind_eq_ok h
      rw [items, hnext]
      cases more with
      | false =>
          cases h
          exact ⟨[], rfl, .nil⟩
      | true =>
          obtain ⟨⟨put, after⟩, hvalue, h⟩ := exists_of_bind_eq_ok h
          have hlength := length_of_nextItem hnext
          have hlength' := hspanning.length_lt hvalue
          have hlater' : ∀ g ∈ later,
              field? fields g.name = some g ∧ g.name ∉ f.name :: seen ∧ Spanning g.value := by
            intro g hg
            obtain ⟨hfield, hunseen, hvalue⟩ := hlater g hg
            refine ⟨hfield, ?_, hvalue⟩
            rw [List.mem_cons, not_or]
            exact ⟨fun heq => hnew (heq ▸ List.mem_map_of_mem hg), hunseen⟩
          obtain ⟨values, hvalues, happlies⟩ := ih hlater' hnodup h (by omega : after.length < fuel)
          refine ⟨value :: values, ?_, .known hf hseen ⟨after, hvalue⟩ happlies⟩
          simp only [bind, Except.bind, ↓reduceIte, hspanning.raw_eq hvalue, hvalues]

/-- Whatever `record` accepts can be taken apart, and its fields have been applied to the parts. -/
theorem Separate.parts_of_record (hfields : Separate fields)
    (h : record fields s cs = .ok (s', rest)) :
    ∃ ms, parts (fields.map Field.name) cs = .ok (ms, rest) ∧ Applies fields [] s ms s' := by
  unfold record at h
  split at h
  · next inside hgap =>
    have hlater : ∀ f ∈ fields, field? fields f.name = some f ∧ f.name ∉ [] ∧ Spanning f.value :=
      fun f hf => ⟨field?_of_mem hfields.nodup hf, List.not_mem_nil, hfields.spanning f hf⟩
    obtain ⟨values, hvalues, happlies⟩ :=
      items_of_positions hlater hfields.nodup h (Nat.lt_succ_self _)
    refine ⟨_, ?_, happlies⟩
    rw [parts_of_bracket hgap, hvalues]
    rfl
  · next inside hgap =>
    rw [parts_of_brace hgap]
    exact namedItems_of_members hfields.spanning h
  · cases h

theorem Separate.spanning_record (hfields : Separate fields) (start : σ) :
    Spanning (record fields start) := by
  intro cs s rest h
  obtain ⟨ms, hparts, -⟩ := hfields.parts_of_record h
  exact spanning_parts _ _ _ _ hparts

theorem read_eq_ok {reader : Reader α} {text : String} {a : α} (h : read reader text = .ok a) :
    ∃ rest, reader text.toList = .ok (a, rest) ∧ skipGap rest = [] := by
  obtain ⟨⟨a', rest⟩, hread, h⟩ := exists_of_bind_eq_ok h
  dsimp only at h
  split at h
  · next hgap =>
    cases h
    exact ⟨rest, hread, hgap⟩
  · cases h

theorem Separate.parts_of_read (hfields : Separate fields) {text : String}
    (h : read (record fields s) text = .ok s') :
    ∃ ms, read (parts (fields.map Field.name)) text = .ok ms ∧ Applies fields [] s ms s' := by
  obtain ⟨rest, hread, hgap⟩ := read_eq_ok h
  obtain ⟨ms, hparts, happlies⟩ := hfields.parts_of_record hread
  refine ⟨ms, ?_, happlies⟩
  rw [read, hparts]
  simp only [bind, Except.bind, hgap]

/-! ## What is written -/

/-- The members of a written object are found again, each under its name. -/
theorem namedItems_of_readsMembers (hfields : ∀ f ∈ fields, Spanning f.value)
    {ms : List (String × Json)} (h : ReadsMembers fields seen s ms s') (isFirst : Bool)
    {fuel : Nat} (hfuel : ms.length < fuel) :
    ∃ found, namedItems raw fuel isFirst
        (rowChars '\x7d' isFirst (ms.map memberChars) ++ rest) = .ok (found, rest) ∧
      found.map Prod.fst = ms.map Prod.fst := by
  induction h generalizing isFirst fuel with
  | nil =>
      obtain ⟨fuel, rfl⟩ := Nat.exists_eq_succ_of_ne_zero (Nat.ne_zero_of_lt hfuel)
      exact ⟨[], rfl, rfl⟩
  | @cons seen s s' name v f put ms hf _ hv _ ih =>
      obtain ⟨fuel, rfl⟩ := Nat.exists_eq_succ_of_ne_zero (Nat.ne_zero_of_lt hfuel)
      obtain ⟨found, hfound, hnames⟩ := ih false (Nat.lt_of_succ_lt_succ hfuel)
      have hread := hv.reads (rowChars '\x7d' false (ms.map memberChars) ++ rest)
        (follows_rowChars (.inr rfl) _)
      have hraw := (hfields f (List.mem_of_find?_eq_some hf)).raw_eq hread
      refine ⟨(name, v.compact.toList ++ (rowChars '\x7d' false (ms.map memberChars) ++ rest)) ::
        found, ?_, congrArg (name :: ·) hnames⟩
      rw [List.map_cons, namedItems, nextName_rowChars]
      simp only [bind, Except.bind, colon_cons, hraw, hfound]

theorem Separate.parts_compact (hfields : Separate fields) {ms : List (String × Json)}
    (h : ReadsMembers fields [] s ms s') (names : List String) :
    ∃ found, read (parts names) (Json.object ms).compact = .ok found ∧
      found.map Prod.fst = ms.map Prod.fst := by
  obtain ⟨found, hfound, hnames⟩ := namedItems_of_readsMembers hfields.spanning h true
    (length_lt_length_members ms [])
  have hparts := (parts_of_brace (skipGap_cons (by decide : isGap '\x7b' = false) _) names).trans
    hfound
  refine ⟨found, ?_, hnames⟩
  rw [read, toList_compact_object, ← List.append_nil (rowChars _ _ _), hparts]
  rfl

end

/-! ## One member of a text -/

/-- What the members say of a name: there is one of that name, and its value is read as `R` says,
or there is none, and the default stands. -/
inductive Member (ms : List (String × List Char)) (name : String) (R : List Char → α → Prop)
    (default : α) : α → Prop
  | given {value : List Char} {a : α} : ms.filter (fun m => m.1 == name) = [(name, value)] →
      R value a → Member ms name R default a
  | missing : (∀ m ∈ ms, m.1 ≠ name) → Member ms name R default default

theorem Member.mono {ms : List (String × List Char)} {name : String} {default a : α}
    {R R' : List Char → α → Prop} (hR : ∀ value a, R value a → R' value a)
    (h : Member ms name R default a) : Member ms name R' default a := by
  cases h with
  | given hfilter hvalue => exact .given hfilter (hR _ _ hvalue)
  | missing hnone => exact .missing hnone

/-- A member of another name does not matter. -/
theorem Member.cons {ms : List (String × List Char)} {name other : String} {default a : α}
    {R : List Char → α → Prop} {value : List Char} (hother : other ≠ name)
    (h : Member ms name R default a) : Member ((other, value) :: ms) name R default a := by
  cases h with
  | given hfilter hvalue =>
      refine .given ?_ hvalue
      rw [List.filter_cons, if_neg (by simpa using hother), hfilter]
  | missing hnone => exact .missing (List.forall_mem_cons.mpr ⟨hother, hnone⟩)

/-- No value of the field changes what `get` takes of a state. -/
def Field.Keeps (f : Field σ) (get : σ → α) : Prop :=
  ∀ value put, Reads f.value value put → ∀ s, get (put s) = get s

@[simp] theorem field_name (name : String) (reader : Reader α) (put : α → σ → σ) :
    (field name reader put).name = name :=
  rfl

theorem reads_field {name : String} {reader : Reader α} {put : α → σ → σ} {value : List Char}
    {change : σ → σ} (h : Reads (field name reader put).value value change) :
    ∃ a, Reads reader value a ∧ change = put a := by
  obtain ⟨rest, h⟩ := h
  obtain ⟨⟨a, after⟩, hread, h⟩ := exists_of_bind_eq_ok h
  cases h
  exact ⟨a, ⟨_, hread⟩, rfl⟩

@[simp] theorem keeps_field {name : String} {reader : Reader α} {put : α → σ → σ} {get : σ → β}
    (h : ∀ a s, get (put a s) = get s) : (field name reader put).Keeps get := by
  intro value change hreads s
  obtain ⟨a, -, rfl⟩ := reads_field hreads
  exact h a s

section

variable {fields : List (Field σ)} {seen : List String} {s s' : σ} {name : String}
  {ms : List (String × List Char)} (get : σ → α)

/-- A name that has been seen does not come again, and what its field stored stays. -/
theorem Applies.keeps (hothers : ∀ f ∈ fields, f.name = name ∨ f.Keeps get)
    (h : Applies fields seen s ms s') (hseen : name ∈ seen)
    (hname : ∃ f, field? fields name = some f) : get s' = get s ∧ ∀ m ∈ ms, m.1 ≠ name := by
  induction h with
  | nil => exact ⟨rfl, fun m hm => absurd hm List.not_mem_nil⟩
  | @known seen s s' other value f put ms hf hnew hreads _ ih =>
      obtain ⟨hget, hms⟩ := ih (List.mem_cons_of_mem _ hseen)
      have hother : other ≠ name := by
        rintro rfl
        exact hnew hseen
      have hfname : f.name = other := by simpa using List.find?_some hf
      rcases hothers f (List.mem_of_find?_eq_some hf) with heq | hkeeps
      · exact absurd (hfname.symm.trans heq) hother
      · exact ⟨hget.trans (hkeeps _ _ hreads _), List.forall_mem_cons.mpr ⟨hother, hms⟩⟩
  | @unknown seen s s' other value ms hf _ ih =>
      obtain ⟨hget, hms⟩ := ih hseen
      have hother : other ≠ name := by
        rintro rfl
        obtain ⟨f, hfield⟩ := hname
        rw [hf] at hfield
        cases hfield
      exact ⟨hget, List.forall_mem_cons.mpr ⟨hother, hms⟩⟩

/-- What no other field touches ends as its member says, or as it was at first. -/
theorem Applies.member {reader : Reader α} {put : α → σ → σ}
    (hfield : field? fields name = some (field name reader put))
    (hput : ∀ a s, get (put a s) = a) (hothers : ∀ f ∈ fields, f.name = name ∨ f.Keeps get)
    (h : Applies fields seen s ms s') (hseen : name ∉ seen) :
    Member ms name (Reads reader) (get s) (get s') := by
  induction h with
  | nil => exact .missing fun m hm => absurd hm List.not_mem_nil
  | @known seen s s' other value f change ms hf hnew hreads hrest ih =>
      by_cases hother : other = name
      · subst hother
        obtain rfl : field other reader put = f := Option.some.inj (hfield.symm.trans hf)
        obtain ⟨a, ha, rfl⟩ := reads_field hreads
        obtain ⟨hget, hms⟩ := hrest.keeps get hothers List.mem_cons_self ⟨_, hfield⟩
        rw [hget, hput]
        refine .given ?_ ha
        rw [List.filter_cons, if_pos (beq_self_eq_true _), List.filter_eq_nil_iff.mpr]
        simpa using hms
      · have hfname : f.name = other := by simpa using List.find?_some hf
        have hget : get (change s) = get s := by
          rcases hothers f (List.mem_of_find?_eq_some hf) with heq | hkeeps
          · exact absurd (hfname.symm.trans heq) hother
          · exact hkeeps _ _ hreads _
        have hmember := ih (by simpa [Ne.symm hother] using hseen)
        rw [hget] at hmember
        exact hmember.cons hother
  | @unknown seen s s' other value ms hf hrest ih =>
      have hother : other ≠ name := by
        rintro rfl
        rw [hf] at hfield
        cases hfield
      exact (ih hseen).cons hother

end

end VideoCatalog.Json.Reader
