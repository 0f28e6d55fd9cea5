import VideoCatalog.Text.CaseFolding

/-!
# The two ways of folding case

Titles and authors are folded by the engine, which replaces characters by position; the term is
folded beforehand by looking characters up. For any table of mappings the two agree
(`translate_eq_fold`).

The table of the search lists every character that has a lower-case form of one other character, so
a character is folded to that form and any other stays (`foldChar_eq`).

A table neither lists NUL nor puts it in another character's place if the lower-casing leaves NUL
where it is (`LeavesNul`), and that of the search does. So its table can be handed to the engine,
and a folded text holds a NUL exactly if the text does (`nul_mem_foldCase`).
-/

namespace VideoCatalog.Text

namespace CaseFolding

theorem toList_upper (t : CaseFolding) : t.upper.toList = t.pairs.map Prod.fst :=
  String.toList_ofList

theorem toList_lower (t : CaseFolding) : t.lower.toList = t.pairs.map Prod.snd :=
  String.toList_ofList

theorem toList_fold (t : CaseFolding) (s : String) : (t.fold s).toList = s.toList.map t.foldChar :=
  String.toList_ofList

/-- The first position of a character in one row leads to its mapping in the other. -/
theorem translateChar_eq_lookup (pairs : List (Char × Char)) (c : Char) :
    translateChar (pairs.map Prod.fst) (pairs.map Prod.snd) c = some ((pairs.lookup c).getD c) := by
  unfold translateChar
  induction pairs with
  | nil => rfl
  | cons pair pairs ih =>
      obtain ⟨a, l⟩ := pair
      rw [List.map_cons, List.map_cons, List.idxOf?_cons, List.lookup_cons]
      by_cases h : a = c
      · subst h
        simp
      · have hac : (a == c) = false := by simpa using h
        have hca : (c == a) = false := by simpa using fun heq : c = a => h heq.symm
        rw [hac, hca]
        cases hidx : (pairs.map Prod.fst).idxOf? c with
        | none => simpa [hidx] using ih
        | some i => simpa [hidx] using ih

/-- Replacing by position what a table lists is looking it up. -/
theorem translate_eq_fold (t : CaseFolding) (s : String) :
    translate s t.upper t.lower = t.fold s := by
  have hchar : translateChar t.upper.toList t.lower.toList = fun c => some (t.foldChar c) := by
    funext c
    rw [toList_upper, toList_lower, translateChar_eq_lookup]
    rfl
  rw [translate, fold, hchar, List.filterMap_eq_map']

/-- A table that is built gives the mappings of the characters that it was built over. -/
theorem lookup_build (lower : Char → List Char) (c : Char) (domain : List Char) :
    (build lower domain).pairs.lookup c = if c ∈ domain then oneToOne lower c else none := by
  unfold build
  induction domain with
  | nil => rfl
  | cons d domain ih =>
      rw [List.filterMap_cons]
      by_cases hd : c = d
      · subst hd
        cases hl : oneToOne lower c with
        | none => simpa [hl] using ih
        | some l => simp
      · have hcd : (c == d) = false := by simpa using hd
        have hmem : c ∈ d :: domain ↔ c ∈ domain := by simp [hd]
        simp only [hmem, ← ih]
        cases oneToOne lower d with
        | none => rfl
        | some l => simp [List.lookup_cons, hcd]

end CaseFolding

theorem oneToOne_eq_some_iff {lower : Char → List Char} {c l : Char} :
    oneToOne lower c = some l ↔ lower c = [l] ∧ l ≠ c := by
  unfold oneToOne
  split
  · next l' hl' =>
    rw [hl', List.singleton_inj]
    split
    · next hsame =>
      subst hsame
      exact ⟨nofun, fun ⟨heq, hne⟩ => absurd heq.symm hne⟩
    · next hne =>
      refine ⟨fun hl => ?_, fun ⟨heq, _⟩ => congrArg some heq⟩
      obtain rfl := Option.some.inj hl
      exact ⟨rfl, hne⟩
  · next hno => exact ⟨nofun, fun ⟨heq, _⟩ => absurd heq (hno l)⟩

/-! ## The table is complete -/

theorem CaseRun.mem_codes_of_covers {run : CaseRun} {code : Nat} (h : run.covers code = true) :
    code ∈ run.codes := by
  simp only [CaseRun.covers, Bool.and_eq_true, decide_eq_true_eq, beq_iff_eq] at h
  obtain ⟨⟨hfirst, hlast⟩, hstep⟩ := h
  refine List.mem_map.mpr ⟨(code - run.first) / run.step, List.mem_range.mpr ?_, ?_⟩
  · exact Nat.lt_succ_of_le (Nat.div_le_div_right (by omega))
  · have hmul : (code - run.first) / run.step * run.step = code - run.first :=
      Nat.div_mul_cancel (Nat.dvd_of_mod_eq_zero hstep)
    omega

/-- A lower-case form of one character is the character itself or comes from a run. -/
theorem lowerChar_eq_singleton {c l : Char} (h : lowerChar c = [l]) :
    l = c ∨ ∃ run ∈ lowerRuns, run.covers c.toNat = true ∧ l = run.lower c.toNat := by
  unfold lowerChar at h
  split at h
  · cases h
  · cases hrun : lowerRuns.find? (fun run => run.covers c.toNat) with
    | none =>
        rw [hrun] at h
        exact .inl (List.singleton_inj.mp h).symm
    | some run =>
        rw [hrun] at h
        have hcovers := List.find?_some hrun
        exact .inr ⟨run, List.mem_of_find?_eq_some hrun, hcovers, (List.singleton_inj.mp h).symm⟩

/-- A character with a mapping is a member of the run that the mapping comes from. -/
theorem exists_run_of_oneToOne {c l : Char} (h : oneToOne lowerChar c = some l) :
    ∃ run ∈ lowerRuns, run.covers c.toNat = true ∧ l = run.lower c.toNat := by
  obtain ⟨hlower, hne⟩ := oneToOne_eq_some_iff.mp h
  exact (lowerChar_eq_singleton hlower).resolve_left hne

theorem mem_casedChars_of_oneToOne {c l : Char} (h : oneToOne lowerChar c = some l) :
    c ∈ casedChars := by
  obtain ⟨run, hrun, hcovers, -⟩ := exists_run_of_oneToOne h
  refine List.mem_map.mpr ⟨c.toNat, ?_, Char.ofNat_toNat c⟩
  exact List.mem_flatMap.mpr ⟨run, hrun, CaseRun.mem_codes_of_covers hcovers⟩

/-- A character is folded to its lower-case form if that is one other character. -/
theorem foldChar_eq (c : Char) : caseFolding.foldChar c = (oneToOne lowerChar c).getD c := by
  rw [CaseFolding.foldChar, caseFolding, CaseFolding.lookup_build]
  split
  · rfl
  · cases hl : oneToOne lowerChar c with
    | none => rfl
    | some l => exact absurd (mem_casedChars_of_oneToOne hl) ‹_›

/-! ## No NUL in the table -/

/-- The lower-casing leaves NUL where it is: it is the lower-case form of itself, and of nothing
else. -/
structure LeavesNul (lower : Char → List Char) : Prop where
  of_nul : lower (Char.ofNat 0) = [Char.ofNat 0]
  of_other : ∀ c, c ≠ Char.ofNat 0 → lower c ≠ [Char.ofNat 0]

namespace CaseFolding

variable {lower : Char → List Char} {domain : List Char}

/-- Where NUL is left in its place, no mapping has to do with it. -/
theorem ne_nul_of_oneToOne (h : LeavesNul lower) {c l : Char} (hl : oneToOne lower c = some l) :
    c ≠ Char.ofNat 0 ∧ l ≠ Char.ofNat 0 := by
  obtain ⟨hlower, hne⟩ := oneToOne_eq_some_iff.mp hl
  have hc : c ≠ Char.ofNat 0 := by
    rintro rfl
    exact hne (List.singleton_inj.mp (hlower.symm.trans h.of_nul))
  exact ⟨hc, fun hlnul => h.of_other c hc (hlnul ▸ hlower)⟩

theorem nul_not_mem_rows (h : LeavesNul lower) (domain : List Char) :
    Char.ofNat 0 ∉ (build lower domain).upper.toList ∧
      Char.ofNat 0 ∉ (build lower domain).lower.toList := by
  have hpairs : ∀ pair ∈ (build lower domain).pairs,
      pair.1 ≠ Char.ofNat 0 ∧ pair.2 ≠ Char.ofNat 0 := by
    intro pair hpair
    obtain ⟨c, -, hc⟩ := List.mem_filterMap.mp hpair
    obtain ⟨l, hl, rfl⟩ := Option.map_eq_some_iff.mp hc
    exact ne_nul_of_oneToOne h hl
  rw [toList_upper, toList_lower]
  constructor
  · intro hmem
    obtain ⟨pair, hpair, heq⟩ := List.mem_map.mp hmem
    exact (hpairs pair hpair).1 heq
  · intro hmem
    obtain ⟨pair, hpair, heq⟩ := List.mem_map.mp hmem
    exact (hpairs pair hpair).2 heq

theorem foldChar_eq_nul_iff (h : LeavesNul lower) {c : Char} :
    (build lower domain).foldChar c = Char.ofNat 0 ↔ c = Char.ofNat 0 := by
  rw [foldChar, lookup_build]
  split
  · cases hl : oneToOne lower c with
    | none => exact Iff.rfl
    | some l =>
        obtain ⟨hc, hlower⟩ := ne_nul_of_oneToOne h hl
        exact ⟨fun heq => absurd heq hlower, fun heq => absurd heq hc⟩
  · exact Iff.rfl

/-- A folded text holds a NUL exactly if the text does. -/
theorem nul_mem_fold_iff (h : LeavesNul lower) {s : String} :
    Char.ofNat 0 ∈ ((build lower domain).fold s).toList ↔ Char.ofNat 0 ∈ s.toList := by
  rw [toList_fold, List.mem_map]
  constructor
  · rintro ⟨c, hc, heq⟩
    exact (foldChar_eq_nul_iff h).mp heq ▸ hc
  · exact fun hs => ⟨_, hs, (foldChar_eq_nul_iff h).mpr rfl⟩

end CaseFolding

theorem toNat_ofNat_of_isValidChar {n : Nat} (h : n.isValidChar) : (Char.ofNat n).toNat = n := by
  rw [Char.ofNat, dif_pos h]
  rfl

theorem ofNat_ne_nul {n : Nat} (hpos : 0 < n) (h : n.isValidChar) :
    Char.ofNat n ≠ Char.ofNat 0 := by
  -- What is no character stands for NUL, so `n ≠ 0` alone would not do.
  intro heq
  have hzero : n = 0 := by
    rw [← toNat_ofNat_of_isValidChar h, heq]
    rfl
  omega

/-- The members of the run and their lower-case forms are characters other than NUL. -/
structure CaseRun.IsProper (run : CaseRun) : Prop where
  ordered : run.first ≤ run.last
  first_pos : 0 < run.first
  valid : run.last < 0xD800 ∨ 0xDFFF < run.first ∧ run.last < 0x110000
  lower_pos : 0 < Int.ofNat run.first + run.shift
  lower_valid : Int.ofNat run.last + run.shift < 0xD800 ∨
    0xDFFF < Int.ofNat run.first + run.shift ∧ Int.ofNat run.last + run.shift < 0x110000

theorem isProper_of_mem_lowerRuns : ∀ run ∈ lowerRuns, run.IsProper := by
  have h : ∀ run ∈ lowerRuns, run.first ≤ run.last ∧ 0 < run.first ∧
      (run.last < 0xD800 ∨ 0xDFFF < run.first ∧ run.last < 0x110000) ∧
      0 < Int.ofNat run.first + run.shift ∧
      (Int.ofNat run.last + run.shift < 0xD800 ∨
        0xDFFF < Int.ofNat run.first + run.shift ∧ Int.ofNat run.last + run.shift < 0x110000) := by
    -- A finite check of the table, run by run.
    decide +kernel
  intro run hrun
  obtain ⟨hordered, hpos, hvalid, hlower, hlowerValid⟩ := h run hrun
  exact ⟨hordered, hpos, hvalid, hlower, hlowerValid⟩

theorem CaseRun.between_of_mem_codes {run : CaseRun} (h : run.first ≤ run.last) {code : Nat}
    (hcode : code ∈ run.codes) : run.first ≤ code ∧ code ≤ run.last := by
  obtain ⟨i, hi, rfl⟩ := List.mem_map.mp hcode
  have hle : i ≤ (run.last - run.first) / run.step := Nat.le_of_lt_succ (List.mem_range.mp hi)
  have hstep : i * run.step ≤ run.last - run.first :=
    Nat.le_trans (Nat.mul_le_mul_right run.step hle) (Nat.div_mul_le_self _ _)
  omega

theorem CaseRun.IsProper.lower_ne_nul {run : CaseRun} (h : run.IsProper) {code : Nat}
    (hcovers : run.covers code = true) : run.lower code ≠ Char.ofNat 0 := by
  simp only [CaseRun.covers, Bool.and_eq_true, decide_eq_true_eq] at hcovers
  obtain ⟨⟨hfirst, hlast⟩, -⟩ := hcovers
  have hpos := h.lower_pos
  simp only [Int.ofNat_eq_natCast] at hpos
  refine ofNat_ne_nul (by simp only [Int.ofNat_eq_natCast]; omega) ?_
  rcases h.lower_valid with h | ⟨h, h'⟩
  · simp only [Int.ofNat_eq_natCast] at h ⊢
    exact .inl (by omega)
  · simp only [Int.ofNat_eq_natCast] at h h' ⊢
    exact .inr ⟨by omega, by omega⟩

theorem oneToOne_lowerChar_ne_nul {c l : Char} (h : oneToOne lowerChar c = some l) :
    l ≠ Char.ofNat 0 := by
  obtain ⟨run, hrun, hcovers, rfl⟩ := exists_run_of_oneToOne h
  exact (isProper_of_mem_lowerRuns run hrun).lower_ne_nul hcovers

theorem leavesNul_lowerChar : LeavesNul lowerChar where
  of_nul := by decide +kernel
  of_other := by
    intro c hc hlower
    exact oneToOne_lowerChar_ne_nul (oneToOne_eq_some_iff.mpr ⟨hlower, hc.symm⟩) rfl

theorem nul_not_mem_upper : Char.ofNat 0 ∉ caseFolding.upper.toList :=
  (CaseFolding.nul_not_mem_rows leavesNul_lowerChar casedChars).1

theorem nul_not_mem_lower : Char.ofNat 0 ∉ caseFolding.lower.toList :=
  (CaseFolding.nul_not_mem_rows leavesNul_lowerChar casedChars).2

/-- Folding a text neither adds a NUL nor takes one away. -/
theorem nul_mem_foldCase (s : String) :
    Char.ofNat 0 ∈ (foldCase s).toList ↔ Char.ofNat 0 ∈ s.toList :=
  CaseFolding.nul_mem_fold_iff leavesNul_lowerChar

end VideoCatalog.Text
