import VideoCatalog.Proofs.Json.Numerals
import VideoCatalog.Proofs.Json.Quoting
import VideoCatalog.Record.Json

/-!
# Values on one line are read as they were written

`ReadsBack` is a reader's half of a round trip: in front of anything that may follow a value on a
line, it reads the written form of a JSON value as a value of its own type and stops right behind.
Strings, integers, truth values and optional values have it, an array has it if its items have, and
an object if the values of its members have (`readsBack_list`, `readsBack_record`).

For an object, `ReadsMembers` goes through the members in the order in which they are written: each
has a field of its name, which no member before it has, and the field stores what its reader reads.
-/

namespace VideoCatalog.Json

/-! ## Arrays and objects as they are written -/

theorem compactItems_eq_map (items : List Json) : compactItems items = items.map compact := by
  induction items with
  | nil => rfl
  | cons item items ih => rw [compactItems, ih, List.map_cons]

theorem compactMembers_eq_map (members : List (String × Json)) :
    compactMembers members = members.map (fun m => quote m.1 ++ ":" ++ compact m.2) := by
  induction members with
  | nil => rfl
  | cons m members ih => rw [compactMembers, ih, List.map_cons]

/-- Pieces of a text from the first or a later one on, with commas in between, up to the bracket
that closes them. -/
def rowChars (close : Char) : Bool → List (List Char) → List Char
  | _, [] => [close]
  | isFirst, piece :: pieces =>
    (if isFirst then [] else [',']) ++ piece ++ rowChars close false pieces

theorem intercalate_append_singleton (close : Char) (pieces : List (List Char)) :
    [','].intercalate pieces ++ [close] = rowChars close true pieces := by
  cases pieces with
  | nil => rfl
  | cons piece pieces =>
      rw [rowChars, if_pos rfl, List.nil_append]
      induction pieces generalizing piece with
      | nil => rw [List.intercalate_singleton, rowChars]
      | cons next pieces ih =>
          rw [List.intercalate_cons_cons, rowChars, List.append_assoc, ih, List.append_assoc]
          simp

theorem toList_compact_array (items : List Json) :
    (compact (.array items)).toList =
      '[' :: rowChars ']' true (items.map (fun item => (compact item).toList)) := by
  have hpieces : (compactItems items).map String.toList =
      items.map (fun item => (compact item).toList) := by
    rw [compactItems_eq_map, List.map_map]
    rfl
  rw [← intercalate_append_singleton, ← hpieces]
  simp [compact, Text.joinWith, String.toList_intercalate]

/-- A member of an object as it is written. -/
def memberChars (m : String × Json) : List Char :=
  (quote m.1).toList ++ ':' :: (compact m.2).toList

theorem toList_compact_object (members : List (String × Json)) :
    (compact (.object members)).toList =
      '\x7b' :: rowChars '\x7d' true (members.map memberChars) := by
  have hpieces : (compactMembers members).map String.toList = members.map memberChars := by
    rw [compactMembers_eq_map, List.map_map]
    refine List.map_congr_left fun m _ => ?_
    simp [memberChars]
  rw [← intercalate_append_singleton, ← hpieces]
  simp [compact, Text.joinWith, String.toList_intercalate]

theorem length_le_length_rowChars (close : Char) (isFirst : Bool) (pieces : List (List Char))
    (h : ∀ piece ∈ pieces, piece ≠ []) :
    pieces.length < (rowChars close isFirst pieces).length := by
  induction pieces generalizing isFirst with
  | nil => exact Nat.one_pos
  | cons piece pieces ih =>
      obtain ⟨hpiece, hpieces⟩ := List.forall_mem_cons.mp h
      have hpos := List.length_pos_iff.mpr hpiece
      have hrest := ih false hpieces
      rw [rowChars, List.length_append, List.length_append, List.length_cons]
      omega

namespace Reader

variable {α β σ : Type} {rest : List Char}

/-- The reader reads the written form of the JSON value as the value `a`, in front of anything that
may follow a value. -/
structure ReadsBack (reader : Reader α) (v : Json) (a : α) : Prop where
  starts : ∃ c cs, v.compact.toList = c :: cs ∧ isGap c = false ∧ c ≠ ']'
  reads : ∀ rest, Follows rest → reader (v.compact.toList ++ rest) = .ok (a, rest)

/-! ## Values without parts -/

theorem readsBack_string (s : String) : ReadsBack string (.string s) s where
  starts := ⟨_, _, toList_quote s, rfl, by decide⟩
  reads rest _ := string_quote s rest

theorem readsBack_integer {low high i : Int} (hleast : -(Nat.pow 2 63 : Int) ≤ low)
    (hgreatest : high < (UInt64.size : Int)) (hlow : low ≤ i) (hhigh : i ≤ high) :
    ReadsBack (integer low high) (.ofInt i) i where
  starts := by
    obtain ⟨c, cs, hcs, hc, hgap⟩ := exists_toString_eq i
    refine ⟨c, cs, hcs, hgap, ?_⟩
    rintro rfl
    exact absurd hc (by decide)
  reads rest hrest := integer_toString hrest hleast hgreatest hlow hhigh

/-- What is read may be stored in another form. -/
theorem ReadsBack.map {reader : Reader α} {v : Json} {a : α} (h : ReadsBack reader v a)
    (f : α → β) :
    ReadsBack (fun cs => do
      let (a, rest) ← reader cs
      .ok (f a, rest)) v (f a) where
  starts := h.starts
  reads rest hrest := by
    dsimp only
    rw [h.reads rest hrest]
    rfl

theorem readsBack_int64 (i : Int64) : ReadsBack int64 (.ofInt i.toInt) i := by
  have hint : ReadsBack (integer Int64.minValue.toInt Int64.maxValue.toInt) (.ofInt i.toInt)
      i.toInt :=
    readsBack_integer (by decide) (by decide) (Int64.minValue_le_toInt i) (Int64.toInt_le i)
  have hread := hint.map Int64.ofInt
  rwa [Int64.ofInt_toInt] at hread

theorem readsBack_int32 (i : Int32) : ReadsBack int32 (.ofInt i.toInt) i := by
  have hint : ReadsBack (integer Int32.minValue.toInt Int32.maxValue.toInt) (.ofInt i.toInt)
      i.toInt :=
    readsBack_integer (by decide) (by decide) (Int32.minValue_le_toInt i) (Int32.toInt_le i)
  have hread := hint.map Int32.ofInt
  rwa [Int32.ofInt_toInt] at hread

theorem readsBack_truth (b : Bool) : ReadsBack truth (.bool b) b where
  starts := by
    cases b with
    | true => exact ⟨'t', ['r', 'u', 'e'], by decide, by decide, by decide⟩
    | false => exact ⟨'f', ['a', 'l', 's', 'e'], by decide, by decide, by decide⟩
  reads rest _ := by
    cases b with
    | true => rfl
    | false => rfl

/-- A value that is there is read as such, for no integer begins like `null`. -/
theorem readsBack_optional {v : Json} {a : α} {reader : Reader α} (h : ReadsBack reader v a)
    (hnull : v.compact.toList.head? ≠ some 'n') : ReadsBack (optional reader) v (some a) where
  starts := h.starts
  reads rest hrest := by
    have hread := h.reads rest hrest
    obtain ⟨c, cs, hcs, hgap, -⟩ := h.starts
    rw [hcs, List.cons_append] at hread ⊢
    have hc : c ≠ 'n' := by
      rintro rfl
      rw [hcs] at hnull
      exact hnull rfl
    unfold optional
    rw [skipGap_cons hgap]
    split
    · next heq => exact absurd (List.cons.inj heq).1 hc
    · rw [hread]
      rfl

theorem readsBack_optional_int32 (i : Int32) :
    ReadsBack (optional int32) (.ofInt i.toInt) (some i) := by
  refine readsBack_optional (readsBack_int32 i) fun hnull => ?_
  obtain ⟨c, cs, hcs, hc, -⟩ := exists_toString_eq i.toInt
  have hhead : (Json.ofInt i.toInt).compact.toList.head? = some c := congrArg List.head? hcs
  obtain rfl : c = 'n' := Option.some.inj (hhead.symm.trans hnull)
  exact absurd hc (by decide)

/-! ## Arrays -/

theorem nextItem_piece {c : Char} {cs : List Char} (isFirst : Bool) (hgap : isGap c = false)
    (hc : c ≠ ']') :
    nextItem isFirst ((if isFirst then [] else [',']) ++ c :: cs) = .ok (true, c :: cs) := by
  cases isFirst with
  | true =>
      rw [if_pos rfl, List.nil_append]
      unfold nextItem
      rw [skipGap_cons hgap]
      split
      · next heq => cases heq
      · next heq => exact absurd (List.cons.inj heq).1 hc
      · next heq =>
        obtain ⟨rfl, rfl⟩ := List.cons.inj heq
        rfl
  | false =>
      rw [if_neg (by decide), List.singleton_append]
      unfold nextItem
      rw [skipGap_cons (by decide : isGap ',' = false)]
      split
      · next heq => cases heq
      · next heq => exact absurd (List.cons.inj heq).1 (by decide)
      · next heq =>
        obtain ⟨rfl, rfl⟩ := List.cons.inj heq
        rw [if_neg (by decide), if_pos rfl, skipGap_cons hgap]
        split
        · next heq => cases heq
        · next heq => exact absurd (List.cons.inj heq).1 hc
        · rfl

/-- The rest of a row is something that may follow a value. -/
theorem follows_rowChars {close : Char} (hclose : close = ']' ∨ close = '\x7d')
    (pieces : List (List Char)) : Follows (rowChars close false pieces ++ rest) := by
  cases pieces with
  | nil => exact .next (.inr hclose)
  | cons piece pieces => exact .next (.inl rfl)

theorem items_of_readsBack {item : Reader α} {toJson : α → Json} {as : List α}
    (h : ∀ a ∈ as, ReadsBack item (toJson a) a) (isFirst : Bool) {fuel : Nat}
    (hfuel : as.length < fuel) :
    items item fuel isFirst
      (rowChars ']' isFirst (as.map (fun a => (toJson a).compact.toList)) ++ rest) =
        .ok (as, rest) := by
  induction as generalizing isFirst fuel with
  | nil =>
      obtain ⟨fuel, rfl⟩ := Nat.exists_eq_succ_of_ne_zero (Nat.ne_zero_of_lt hfuel)
      rfl
  | cons a as ih =>
      obtain ⟨ha, has⟩ := List.forall_mem_cons.mp h
      obtain ⟨fuel, rfl⟩ := Nat.exists_eq_succ_of_ne_zero (Nat.ne_zero_of_lt hfuel)
      have hread := ha.reads
        (rowChars ']' false (as.map (fun a => (toJson a).compact.toList)) ++ rest)
        (follows_rowChars (.inl rfl) _)
      obtain ⟨c, cs, hcs, hgap, hc⟩ := ha.starts
      have hrest := ih has false (Nat.lt_of_succ_lt_succ hfuel)
      rw [hcs, List.cons_append] at hread
      rw [List.map_cons, rowChars, List.append_assoc, List.append_assoc, hcs, List.cons_append,
        items, nextItem_piece isFirst hgap hc]
      simp only [bind, Except.bind, ↓reduceIte, hread, hrest]

theorem readsBack_list {item : Reader α} {toJson : α → Json} {as : List α}
    (h : ∀ a ∈ as, ReadsBack item (toJson a) a) :
    ReadsBack (list item) (.array (as.map toJson)) as where
  starts := ⟨_, _, toList_compact_array _, rfl, by decide⟩
  reads rest _ := by
    have hne : ∀ piece ∈ as.map (fun a => (toJson a).compact.toList), piece ≠ [] := by
      intro piece hpiece
      obtain ⟨a, ha, rfl⟩ := List.mem_map.mp hpiece
      obtain ⟨c, cs, hcs, -⟩ := (h a ha).starts
      rw [hcs]
      exact List.cons_ne_nil _ _
    have hlength := length_le_length_rowChars ']' true _ hne
    rw [List.length_map] at hlength
    rw [toList_compact_array, List.map_map, List.cons_append]
    refine items_of_readsBack h true ?_
    rw [List.length_append]
    exact Nat.lt_succ_of_le (Nat.le_trans (Nat.le_of_lt hlength) (Nat.le_add_right _ _))

/-! ## Objects -/

theorem readsBack_field {reader : Reader α} {v : Json} {a : α} (h : ReadsBack reader v a)
    (name : String) (put : α → σ → σ) :
    ReadsBack (field name reader put).value v (put a) :=
  h.map put

/-- The fields read these members in their order, after those whose names have been seen, and take
what is there at first to what is there in the end. -/
inductive ReadsMembers (fields : List (Field σ)) :
    List String → σ → List (String × Json) → σ → Prop
  | nil {seen : List String} {s : σ} : ReadsMembers fields seen s [] s
  | cons {seen : List String} {s s' : σ} {name : String} {v : Json} {f : Field σ} {put : σ → σ}
      {members : List (String × Json)} : field? fields name = some f → name ∉ seen →
      ReadsBack f.value v put → ReadsMembers fields (name :: seen) (put s) members s' →
      ReadsMembers fields seen s ((name, v) :: members) s'

theorem nextName_piece (isFirst : Bool) (name : String) (cs : List Char) :
    nextName isFirst ((if isFirst then [] else [',']) ++ ((quote name).toList ++ cs)) =
      .ok (some name, cs) := by
  have hquoted := quoted_escaped name cs
  have hfirst : ∀ tail, nextName true ('\x22' :: tail) =
      (quoted tail).bind fun r => .ok (some r.1, r.2) := fun _ => rfl
  have hlater : ∀ tail, nextName false (',' :: '\x22' :: tail) =
      (quoted tail).bind fun r => .ok (some r.1, r.2) := fun _ => rfl
  rw [toList_quote, List.cons_append, List.append_assoc, List.singleton_append]
  cases isFirst with
  | true =>
      rw [if_pos rfl, List.nil_append, hfirst, hquoted]
      rfl
  | false =>
      rw [if_neg (by decide), List.singleton_append, hlater, hquoted]
      rfl

theorem nextName_rowChars (isFirst : Bool) (name : String) (v : Json) (pieces : List (List Char))
    (rest : List Char) :
    nextName isFirst (rowChars '\x7d' isFirst (memberChars (name, v) :: pieces) ++ rest) =
      .ok (some name, ':' :: (v.compact.toList ++ (rowChars '\x7d' false pieces ++ rest))) := by
  rw [rowChars, memberChars, List.append_assoc, List.append_assoc, List.append_assoc,
    List.cons_append]
  exact nextName_piece isFirst name _

theorem colon_cons (cs : List Char) : colon (':' :: cs) = .ok ((), cs) :=
  rfl

theorem members_of_readsMembers {fields : List (Field σ)} {seen : List String} {s s' : σ}
    {ms : List (String × Json)} (h : ReadsMembers fields seen s ms s') (isFirst : Bool)
    {fuel : Nat} (hfuel : ms.length < fuel) :
    members fields fuel isFirst seen s
      (rowChars '\x7d' isFirst (ms.map memberChars) ++ rest) = .ok (s', rest) := by
  induction h generalizing isFirst fuel with
  | nil =>
      obtain ⟨fuel, rfl⟩ := Nat.exists_eq_succ_of_ne_zero (Nat.ne_zero_of_lt hfuel)
      rfl
  | @cons seen s s' name v f put ms hf hseen hv _ ih =>
      obtain ⟨fuel, rfl⟩ := Nat.exists_eq_succ_of_ne_zero (Nat.ne_zero_of_lt hfuel)
      have hrest := ih false (Nat.lt_of_succ_lt_succ hfuel)
      have hread := hv.reads (rowChars '\x7d' false (ms.map memberChars) ++ rest)
        (follows_rowChars (.inr rfl) _)
      have hnew : seen.contains name = false := by simpa using hseen
      rw [List.map_cons, members, nextName_rowChars]
      simp only [bind, Except.bind, hf, hnew, Bool.false_eq_true, ↓reduceIte, colon_cons, hread,
        hrest]

theorem length_lt_length_members (ms : List (String × Json)) (rest : List Char) :
    ms.length < (rowChars '\x7d' true (ms.map memberChars) ++ rest).length + 1 := by
  have hne : ∀ piece ∈ ms.map memberChars, piece ≠ [] := by
    intro piece hpiece
    obtain ⟨m, -, rfl⟩ := List.mem_map.mp hpiece
    rw [memberChars, toList_quote]
    exact List.cons_ne_nil _ _
  have hlength := length_le_length_rowChars '\x7d' true _ hne
  rw [List.length_map] at hlength
  rw [List.length_append]
  exact Nat.lt_succ_of_le (Nat.le_trans (Nat.le_of_lt hlength) (Nat.le_add_right _ _))

theorem readsBack_record {fields : List (Field σ)} {start s : σ} {ms : List (String × Json)}
    (h : ReadsMembers fields [] start ms s) :
    ReadsBack (record fields start) (.object ms) s where
  starts := ⟨_, _, toList_compact_object ms, rfl, by decide⟩
  reads rest _ := by
    rw [toList_compact_object, List.cons_append]
    exact members_of_readsMembers h true (length_lt_length_members ms rest)

/-- A text that is the written form of a value and nothing else. -/
theorem read_compact {reader : Reader α} {v : Json} {a : α} (h : ReadsBack reader v a) :
    read reader v.compact = .ok a := by
  have hread := h.reads [] .nothing
  rw [List.append_nil] at hread
  rw [read, hread]
  rfl

end Reader

end VideoCatalog.Json
