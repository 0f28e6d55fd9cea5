import Mathlib.Util.Superscript
import VideoCatalog.Proofs.Search.Filter

/-!
# The table of the search

The table of a lower-casing is made character by character, in the order of all characters
(`everyChar`). A loop that does so keeps two texts, to which it adds the character and its
lower-case form, and a hash map, into which it inserts them (`Filling.add`). What it has filled
after some characters is the table over these characters (`Filling.Holds`): `Filling.Holds.add` is
the step, `Filling.holds_after` the run.

A table over all characters lists none of them twice, and it has as many lower-case forms as
characters, so a replacement by position drops nothing. It holds no NUL if the lower-casing leaves
NUL where it is (`LeavesNul`). The lower-casing of the search does, and the table of the search is
its table over all characters (`caseFolding_eq`). A query refuses texts with a NUL before it turns
to the engine, and none of the texts of a search has one, so none of its steps fails for a NUL
(`Query.NoNulFault`).
-/

namespace VideoCatalog.Text

/-! ## All characters -/

/-- All characters, in their order. -/
def everyChar : List Char :=
  ((List.range 0x110000).filter (fun n => decide n.isValidChar)).map Char.ofNat

theorem mem_everyChar (c : Char) : c ∈ everyChar := by
  have hvalid : c.toNat.isValidChar := c.valid
  refine List.mem_map.mpr ⟨c.toNat, List.mem_filter.mpr ⟨List.mem_range.mpr ?_, ?_⟩,
    Char.ofNat_toNat c⟩
  · rcases hvalid with h | ⟨-, h⟩
    · exact Nat.lt_trans h (by decide)
    · exact h
  · exact decide_eq_true hvalid

/-- Codes in increasing order stand for characters in increasing order. -/
theorem pairwise_map_ofNat {codes : List Nat} (hvalid : ∀ n ∈ codes, n.isValidChar)
    (h : codes.Pairwise (· < ·)) :
    (codes.map Char.ofNat).Pairwise (fun a b => a.toNat < b.toNat) := by
  rw [List.pairwise_map]
  refine h.imp_of_mem fun ha hb hlt => ?_
  rwa [toNat_ofNat_of_isValidChar (hvalid _ ha), toNat_ofNat_of_isValidChar (hvalid _ hb)]

theorem pairwise_everyChar : everyChar.Pairwise (fun a b => a.toNat < b.toNat) :=
  pairwise_map_ofNat (fun _ hn => of_decide_eq_true (List.mem_filter.mp hn).2)
    (List.pairwise_lt_range.filter _)

theorem nodup_of_pairwise {cs : List Char} (h : cs.Pairwise (fun a b => a.toNat < b.toNat)) :
    cs.Nodup :=
  h.imp fun hlt heq => Nat.ne_of_lt hlt (congrArg Char.toNat heq)

theorem nodup_everyChar : everyChar.Nodup :=
  nodup_of_pairwise pairwise_everyChar

/-- Characters in increasing order are determined by which they are. -/
theorem eq_of_pairwise {cs ds : List Char} (hcs : cs.Pairwise (fun a b => a.toNat < b.toNat))
    (hds : ds.Pairwise (fun a b => a.toNat < b.toNat)) (h : ∀ c, c ∈ cs ↔ c ∈ ds) : cs = ds := by
  have hperm : cs.Perm ds :=
    (List.perm_ext_iff_of_nodup (nodup_of_pairwise hcs) (nodup_of_pairwise hds)).mpr h
  exact hperm.eq_of_pairwise (fun _ _ _ _ hlt hgt => absurd hlt (Nat.lt_asymm hgt)) hcs hds

/-! ## Tables of any lower-casing -/

namespace CaseFolding

variable {lower : Char → List Char} {domain : List Char}

/-- The table of a lower-casing over all characters. -/
def all (lower : Char → List Char) : CaseFolding :=
  build lower everyChar

/-- The characters of a table are the mapped ones among those it was built over. -/
theorem map_fst_build (lower : Char → List Char) (domain : List Char) :
    (build lower domain).pairs.map Prod.fst =
      domain.filter (fun c => (oneToOne lower c).isSome) := by
  unfold build
  induction domain with
  | nil => rfl
  | cons c domain ih =>
      cases hl : oneToOne lower c with
      | none => simpa [hl] using ih
      | some l => simpa [hl] using ih

theorem nodup_upper (h : domain.Nodup) : (build lower domain).upper.toList.Nodup := by
  rw [toList_upper, map_fst_build]
  exact h.filter _

theorem length_upper (t : CaseFolding) : t.upper.length = t.lower.length := by
  rw [← String.length_toList, ← String.length_toList, toList_upper, toList_lower,
    List.length_map, List.length_map]

theorem length_fold (t : CaseFolding) (s : String) : (t.fold s).length = s.length := by
  rw [← String.length_toList, toList_fold, List.length_map, String.length_toList]

end CaseFolding

/-! ## The loop that fills a table -/

/-- A table that is being filled: the two rows, and the same mapping to be looked up. -/
structure Filling where
  upper : String := ""
  lower : String := ""
  map : Std.HashMap Char Char := ∅

namespace Filling

/-- What one character adds to the table. -/
def add (lower : Char → List Char) (f : Filling) (c : Char) : Filling :=
  match oneToOne lower c with
  | some l => { upper := f.upper.push c, lower := f.lower.push l, map := f.map.insert c l }
  | none => f

/-- The table filled with some characters, one after the other. -/
def after (lower : Char → List Char) (domain : List Char) : Filling :=
  domain.foldl (add lower) {}

/-- A text with every character replaced that the map has. -/
def fold (f : Filling) (s : String) : String :=
  String.ofList (s.toList.map (fun c => f.map[c]?.getD c))

/-- The filled table holds what another one lists. -/
structure Holds (f : Filling) (t : CaseFolding) : Prop where
  upper_eq : f.upper = t.upper
  lower_eq : f.lower = t.lower
  map_eq : ∀ c, f.map[c]? = t.pairs.lookup c

variable {lower : Char → List Char} {domain : List Char} {f : Filling} {t : CaseFolding}

theorem Holds.fold_eq (h : f.Holds t) (s : String) : f.fold s = t.fold s := by
  have hchar : (fun c => f.map[c]?.getD c) = t.foldChar :=
    funext fun c => congrArg (·.getD c) (h.map_eq c)
  rw [fold, CaseFolding.fold, hchar]

/-- One more character keeps the filled table in step with the table over the characters so far. -/
theorem Holds.add (h : f.Holds (.build lower domain)) (c : Char) :
    (f.add lower c).Holds (.build lower (domain ++ [c])) := by
  unfold Filling.add
  cases hl : oneToOne lower c with
  | none =>
      have hsame : CaseFolding.build lower (domain ++ [c]) = .build lower domain := by
        simp [CaseFolding.build, hl]
      rwa [hsame]
  | some l =>
      have hpairs : (CaseFolding.build lower (domain ++ [c])).pairs =
          (CaseFolding.build lower domain).pairs ++ [(c, l)] := by
        simp [CaseFolding.build, hl]
      refine ⟨?_, ?_, fun d => ?_⟩
      · rw [h.upper_eq, ← String.toList_inj, String.toList_push, CaseFolding.toList_upper,
          CaseFolding.toList_upper, hpairs, List.map_append]
        rfl
      · rw [h.lower_eq, ← String.toList_inj, String.toList_push, CaseFolding.toList_lower,
          CaseFolding.toList_lower, hpairs, List.map_append]
        rfl
      · -- inserting overwrites, but only with what was there
        rw [Std.HashMap.getElem?_insert, h.map_eq, CaseFolding.lookup_build,
          CaseFolding.lookup_build]
        by_cases hd : c = d
        · subst hd
          simp [hl]
        · have hmem : d ∈ domain ++ [c] ↔ d ∈ domain := by simp [Ne.symm hd]
          simp only [hmem, beq_iff_eq, hd, if_false]

/-- The loop fills in the table over its characters. -/
theorem holds_after (lower : Char → List Char) (domain : List Char) :
    (after lower domain).Holds (.build lower domain) := by
  induction domain using List.reverseRecOn with
  | nil => exact ⟨rfl, rfl, fun c => Std.HashMap.getElem?_empty⟩
  | append_singleton domain c ih =>
      rw [after, List.foldl_append]
      exact ih.add c

end Filling

/-! ## The table of the search is the table over all characters -/

theorem CaseRun.pairwise_codes {run : CaseRun} (h : 0 < run.step) :
    run.codes.Pairwise (· < ·) := by
  rw [CaseRun.codes, List.pairwise_map]
  refine List.pairwise_lt_range.imp fun hlt => ?_
  exact Nat.add_lt_add_left (Nat.mul_lt_mul_of_pos_right hlt h) _

theorem pairwise_lowerRuns :
    (∀ run ∈ lowerRuns, 0 < run.step) ∧ lowerRuns.Pairwise (fun a b => a.last < b.first) := by
  -- A finite check of the table, like that of its runs.
  decide +kernel

theorem pairwise_casedChars : casedChars.Pairwise (fun a b => a.toNat < b.toNat) := by
  obtain ⟨hstep, hruns⟩ := pairwise_lowerRuns
  have hbetween : ∀ run ∈ lowerRuns, ∀ code ∈ run.codes,
      run.first ≤ code ∧ code ≤ run.last :=
    fun run hrun code hcode =>
      CaseRun.between_of_mem_codes (isProper_of_mem_lowerRuns run hrun).ordered hcode
  refine pairwise_map_ofNat (fun code hcode => ?_) (List.pairwise_flatMap.mpr ⟨?_, ?_⟩)
  · obtain ⟨run, hrun, hcode⟩ := List.mem_flatMap.mp hcode
    obtain ⟨hfirst, hlast⟩ := hbetween run hrun code hcode
    rcases (isProper_of_mem_lowerRuns run hrun).valid with h | ⟨h, h'⟩
    · exact .inl (by omega)
    · exact .inr ⟨by omega, by omega⟩
  · exact fun run hrun => CaseRun.pairwise_codes (hstep run hrun)
  · refine hruns.imp_of_mem fun ha hb hlt code hcode code' hcode' => ?_
    have hle := (hbetween _ ha code hcode).2
    have hge := (hbetween _ hb code' hcode').1
    omega

/-- No character outside the runs has a mapping, so leaving them out changes nothing. -/
theorem caseFolding_eq : caseFolding = .all lowerChar := by
  have hmapped : casedChars.filter (fun c => (oneToOne lowerChar c).isSome) =
      everyChar.filter (fun c => (oneToOne lowerChar c).isSome) := by
    refine eq_of_pairwise (pairwise_casedChars.filter _) (pairwise_everyChar.filter _) fun c => ?_
    rw [List.mem_filter, List.mem_filter]
    refine ⟨fun h => ⟨mem_everyChar c, h.2⟩, fun h => ⟨?_, h.2⟩⟩
    obtain ⟨l, hl⟩ := Option.isSome_iff_exists.mp h.2
    exact mem_casedChars_of_oneToOne hl
  have hbuild : ∀ domain : List Char, CaseFolding.build lowerChar domain =
      .build lowerChar (domain.filter (fun c => (oneToOne lowerChar c).isSome)) := by
    intro domain
    rw [CaseFolding.build, CaseFolding.build, List.filterMap_filter]
    congr 1
    refine List.filterMap_congr fun c _ => ?_
    cases oneToOne lowerChar c <;> rfl
  rw [caseFolding, hbuild casedChars, hmapped, ← hbuild everyChar, CaseFolding.all]

end VideoCatalog.Text

/-! ## No step fails for a NUL -/

namespace VideoCatalog

variable {G : Type}

namespace Query

/-- The step never fails because of a NUL in a text. -/
def NoNulFault {α : Type} (step : QueryStep α) : Prop :=
  ∀ (q : Query) (text : String), (step.run.run q).1 ≠ .error (.interiorNul text)

namespace NoNulFault

theorem bind {α β : Type} {step : QueryStep α} {next : α → QueryStep β} (h : NoNulFault step)
    (hnext : ∀ a, NoNulFault (next a)) : NoNulFault (step >>= next) := by
  intro q text
  rw [ExceptT.run_bind, StateT.run_bind]
  cases hstep : step.run.run q with
  | mk result q' =>
      cases result with
      | error e =>
          have he := h q text
          rw [hstep] at he
          intro heq
          exact he (congrArg Except.error (Except.error.inj heq))
      | ok a => exact hnext a q' text

theorem note (call : QueryCall) : NoNulFault (note call) :=
  fun _ _ => nofun

theorem withoutNul {s : String} (h : Char.ofNat 0 ∉ s.toList) :
    NoNulFault (ExceptT.mk (pure (withoutNul s))) := by
  rw [withoutNul_of_not_mem h]
  exact fun _ _ => nofun

theorem bindNamespace (b : Backend G) {qualifier uri : String}
    (hqualifier : Char.ofNat 0 ∉ qualifier.toList) (huri : Char.ofNat 0 ∉ uri.toList) :
    NoNulFault (bindNamespace b qualifier uri) := by
  refine bind (withoutNul hqualifier) fun _ => bind (withoutNul huri) fun _ =>
    bind (note _) fun _ => ?_
  split
  · exact fun _ _ => nofun
  · exact fun _ _ => nofun

theorem bindVariable (b : Backend G) {name value : String} (hname : Char.ofNat 0 ∉ name.toList)
    (hvalue : Char.ofNat 0 ∉ value.toList) : NoNulFault (bindVariable b name value) := by
  refine bind (withoutNul hname) fun _ => bind (withoutNul hvalue) fun _ =>
    bind (note _) fun _ => ?_
  split
  · exact fun _ _ => nofun
  · exact fun _ _ => nofun

theorem select (b : Backend G) {expression : String} (h : Char.ofNat 0 ∉ expression.toList) :
    NoNulFault (select b expression) := by
  refine bind (withoutNul h) fun _ => bind (note _) fun _ => bind (fun _ _ => nofun) fun q => ?_
  split
  · exact fun _ _ => nofun
  · exact fun _ _ => nofun
  · exact fun _ _ => nofun

end NoNulFault

end Query

namespace Search

theorem noNulFault_select (b : Backend G) {term : String} (h : Char.ofNat 0 ∉ term.toList) :
    Query.NoNulFault (select b term) :=
  .bind (.bindNamespace b (by decide) (by decide)) fun _ =>
    .bind (.bindVariable b (by decide) Text.nul_not_mem_upper) fun _ =>
      .bind (.bindVariable b (by decide) Text.nul_not_mem_lower) fun _ =>
        .bind (.bindVariable b (by decide) h) fun _ => .select b nul_not_mem_expression

theorem readBackAll_ne_query (collection : List Record) (entries : List Xml.Cursor)
    (e : EngineError) : readBackAll collection entries ≠ .error (.query e) := by
  unfold readBackAll
  dsimp only
  split
  · exact nofun
  · exact nofun

theorem inSnapshot_ne_interiorNul (b : Backend G) (collection : List Record) {term : String}
    (h : Char.ofNat 0 ∉ term.toList) (snapshot text : String) :
    (inSnapshot b collection term snapshot).1 ≠ .error (.query (.interiorNul text)) := by
  have hfolded : Char.ofNat 0 ∉ (Text.foldCase term).toList :=
    fun hmem => h ((Text.nul_mem_foldCase term).mp hmem)
  unfold inSnapshot
  split
  · next e hparsed =>
    rintro ⟨⟩
    unfold Backend.document at hparsed
    split at hparsed
    · cases hparsed
    · split at hparsed <;> cases hparsed
  · split
    · next e hstart =>
      rintro ⟨⟩
      unfold Query.start at hstart
      split at hstart <;> cases hstart
    · next query _ =>
      have hfault := noNulFault_select b hfolded query text
      cases hrun : (select b (Text.foldCase term)).run.run query with
      | mk selected after =>
          rw [hrun] at hfault
          cases selected with
          | error e =>
              rintro ⟨⟩
              exact hfault rfl
          | ok entries =>
              dsimp only
              split
              · exact nofun
              · exact readBackAll_ne_query collection _ _

/-- A search never fails because of a NUL, whatever the engine replies. -/
theorem run_ne_interiorNul (b : Backend G) (collection : List Record) (term text : String) :
    (run b collection term).found ≠ .error (.query (.interiorNul text)) := by
  unfold run
  split
  · exact nofun
  · next hasked =>
    have hterm : Char.ofNat 0 ∉ term.toList := fun hmem => hasked (by simp [hmem])
    exact inSnapshot_ne_interiorNul b collection hterm _ text

/-- **The two ways of folding case agree.** A table over all characters is what the loop fills in;
it lists no character twice and as many lower-case forms as characters, and the positional
replacement is the lookup, which keeps the number of characters. Where NUL is left in its place,
the table holds none, none comes in by folding, and no variable of the search is refused for one.
That is so for the table of the search; so no search fails for a NUL. -/
theorem foldings_agree (b : Backend G) (lower : Char → List Char) :
    (Text.Filling.after lower Text.everyChar).Holds (.all lower) ∧
    (∀ s, (Text.Filling.after lower Text.everyChar).fold s = (Text.CaseFolding.all lower).fold s) ∧
    (Text.CaseFolding.all lower).upper.toList.Nodup ∧
    (Text.CaseFolding.all lower).upper.length = (Text.CaseFolding.all lower).lower.length ∧
    (∀ s, Text.translate s (Text.CaseFolding.all lower).upper (Text.CaseFolding.all lower).lower =
        (Text.CaseFolding.all lower).fold s ∧
      ((Text.CaseFolding.all lower).fold s).length = s.length) ∧
    (Text.LeavesNul lower →
      Char.ofNat 0 ∉ (Text.CaseFolding.all lower).upper.toList ∧
      Char.ofNat 0 ∉ (Text.CaseFolding.all lower).lower.toList ∧
      (∀ s, Char.ofNat 0 ∈ ((Text.CaseFolding.all lower).fold s).toList →
        Char.ofNat 0 ∈ s.toList) ∧
      Query.NoNulFault (Query.bindVariable b "upper" (Text.CaseFolding.all lower).upper) ∧
      Query.NoNulFault (Query.bindVariable b "lower" (Text.CaseFolding.all lower).lower) ∧
      ∀ term, Char.ofNat 0 ∉ term.toList →
        Query.NoNulFault (Query.bindVariable b "term" ((Text.CaseFolding.all lower).fold term))) ∧
    Text.caseFolding = .all Text.lowerChar ∧ Text.LeavesNul Text.lowerChar ∧
    ∀ collection term text,
      (run b collection term).found ≠ .error (.query (.interiorNul text)) := by
  have hholds := Text.Filling.holds_after lower Text.everyChar
  refine ⟨hholds, hholds.fold_eq, Text.CaseFolding.nodup_upper Text.nodup_everyChar,
    Text.CaseFolding.length_upper _, fun s => ⟨?_, ?_⟩, fun hnul => ?_, Text.caseFolding_eq,
    Text.leavesNul_lowerChar, run_ne_interiorNul b⟩
  · exact Text.CaseFolding.translate_eq_fold _ s
  · exact Text.CaseFolding.length_fold _ s
  · have hfold : ∀ s, Char.ofNat 0 ∈ ((Text.CaseFolding.all lower).fold s).toList →
        Char.ofNat 0 ∈ s.toList := fun _ => (Text.CaseFolding.nul_mem_fold_iff hnul).mp
    obtain ⟨hupper, hlower⟩ := Text.CaseFolding.nul_not_mem_rows hnul Text.everyChar
    refine ⟨hupper, hlower, hfold, .bindVariable b (by decide) hupper,
      .bindVariable b (by decide) hlower, fun term hterm => ?_⟩
    exact .bindVariable b (by decide) fun hmem => hterm (hfold term hmem)

/-- The lower-casing of the search leaves NUL in its place, so a term may be bound once folded. -/
theorem foldings_agree_lowerChar :
    Text.LeavesNul Text.lowerChar ∧
    Char.ofNat 0 ∉ Text.caseFolding.upper.toList ∧ Char.ofNat 0 ∉ Text.caseFolding.lower.toList ∧
    Text.translate "\u00c4R\u0130" Text.caseFolding.upper Text.caseFolding.lower =
      "\u00e4r\u0130" ∧
    Query.NoNulFault
      (Query.bindVariable Structural.backend "term" (Text.caseFolding.fold "\u00c4R\u0130")) := by
  obtain ⟨-, -, -, -, hfold, hnul, heq, hleaves, -⟩ :=
    foldings_agree Structural.backend Text.lowerChar
  obtain ⟨hupper, hlower, -, -, -, hterm⟩ := hnul Text.leavesNul_lowerChar
  rw [heq]
  refine ⟨hleaves, hupper, hlower, ?_, hterm _ (by decide)⟩
  rw [(hfold _).1, ← heq, Text.CaseFolding.fold, funext Text.foldChar_eq]
  decide +kernel

end Search

end VideoCatalog
