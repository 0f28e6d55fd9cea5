import Mathlib.Data.List.Lex
import Mathlib.Data.List.Nodup
import VideoCatalog.Files.Path

/-!
# Paths as rows of components

A path with a name behind it has one component more (`components_join`), whether or not a slash ends
it. Names that a directory can hold are such that a path to an entry is never read in another way.

Paths come in the order of their components (`Path.Before`), which is a strict one: a list of paths
with different components is strictly increasing once it is sorted
(`Path.pairwise_before_mergeSort`), and two strictly increasing lists of the same paths are one
(`Path.eq_of_pairwise_before`).
-/

namespace VideoCatalog

namespace Text

variable {α : Type} [DecidableEq α] {separator : α}

theorem splitList_ne_nil (cs : List α) : splitList separator cs ≠ [] := by
  fun_cases splitList separator cs with
  | case1 => exact List.cons_ne_nil _ _
  | case2 => simp
  | case3 => simp [*]
  | case4 => simp [*]

theorem splitList_of_not_mem {cs : List α} (h : separator ∉ cs) :
    splitList separator cs = [cs] := by
  induction cs with
  | nil => rfl
  | cons c cs ih =>
      obtain ⟨hc, hcs⟩ := List.ne_and_not_mem_of_not_mem_cons h
      rw [splitList, if_neg (Ne.symm hc), ih hcs]

/-- A separator ends a piece. -/
theorem splitList_append (cs ds : List α) :
    splitList separator (cs ++ separator :: ds) =
      splitList separator cs ++ splitList separator ds := by
  induction cs with
  | nil => simp [splitList]
  | cons c cs ih =>
      by_cases hc : c = separator
      · subst hc
        simp [splitList, ih]
      · rw [List.cons_append, splitList, if_neg hc, ih, splitList, if_neg hc]
        cases hpieces : splitList separator cs with
        | nil => exact absurd hpieces (splitList_ne_nil cs)
        | cons piece pieces => rfl

end Text

namespace RawText

theorem eq_empty_iff {t : RawText} : t = "" ↔ t.bytes = [] :=
  RawText.ext_iff

end RawText

namespace Files

/-- A name that a directory can hold. -/
structure IsEntryName (name : RawText) : Prop where
  nonempty : name ≠ ""
  current : name ≠ "."
  parent : name ≠ ".."
  slash : RawText.slash ∉ name.bytes

instance (name : RawText) : Decidable (IsEntryName name) :=
  decidable_of_iff (name ≠ "" ∧ name ≠ "." ∧ name ≠ ".." ∧ RawText.slash ∉ name.bytes)
    ⟨fun ⟨hempty, hcurrent, hparent, hslash⟩ => ⟨hempty, hcurrent, hparent, hslash⟩,
      fun h => ⟨h.nonempty, h.current, h.parent, h.slash⟩⟩

theorem IsEntryName.component? {name : RawText} (h : IsEntryName name) :
    Path.component? name = some (.name name) := by
  simp [Path.component?, h.nonempty, h.current, h.parent]

namespace Path

/-! ## Joining -/

section Join

variable {path name : RawText}

theorem isAbsolute_eq_false (h : IsEntryName name) : isAbsolute name = false := by
  refine decide_eq_false fun hhead => h.slash ?_
  exact List.mem_of_head? hhead

theorem join_ne_empty (h : IsEntryName name) : join path name ≠ "" := by
  have hname : name.bytes ≠ [] := fun hnil => h.nonempty (RawText.eq_empty_iff.mpr hnil)
  rw [join, isAbsolute_eq_false h, if_neg Bool.false_ne_true]
  split
  · exact h.nonempty
  · split
    all_goals simp [RawText.eq_empty_iff, hname]

/-- The pieces of a joined path are those of the path, but for an empty one at its end, and the
name. -/
theorem exists_pieces_join (hpath : path ≠ "") (h : IsEntryName name) :
    ∃ before, before ≠ [] ∧
      (pieces path = before ∨ pieces path = before ++ [RawText.ofString ""]) ∧
      pieces (join path name) = before ++ [name] := by
  have hname : Text.splitList RawText.slash name.bytes = [name.bytes] :=
    Text.splitList_of_not_mem h.slash
  rw [join, isAbsolute_eq_false h, if_neg Bool.false_ne_true, if_neg hpath]
  split
  · next hlast =>
    obtain ⟨cs, hcs⟩ : ∃ cs, path.bytes = cs ++ [RawText.slash] :=
      List.getLast?_eq_some_iff.mp hlast
    refine ⟨(Text.splitList RawText.slash cs).map RawText.mk, ?_, .inr ?_, ?_⟩
    · simpa using Text.splitList_ne_nil cs
    · rw [pieces, hcs, Text.splitList_append, List.map_append]
      rfl
    · simp [pieces, hcs, Text.splitList_append, hname]
  · refine ⟨pieces path, ?_, .inl rfl, ?_⟩
    · simpa [pieces] using Text.splitList_ne_nil path.bytes
    · simp [pieces, Text.splitList_append, hname]

theorem isAbsolute_join (hpath : path ≠ "") (h : IsEntryName name) :
    isAbsolute (join path name) = isAbsolute path := by
  have hbytes : path.bytes ≠ [] := mt RawText.eq_empty_iff.mpr hpath
  obtain ⟨c, cs, hcs⟩ := List.exists_cons_of_ne_nil hbytes
  rw [join, isAbsolute_eq_false h, if_neg Bool.false_ne_true, if_neg hpath]
  split
  all_goals simp [isAbsolute, hcs]

/-- A name behind a path is one more component. -/
theorem components_join (hpath : path ≠ "") (h : IsEntryName name) :
    components (join path name) = components path ++ [.name name] := by
  obtain ⟨before, hbefore, hpieces, hjoin⟩ := exists_pieces_join hpath h
  have hhead : (pieces (join path name)).head? = (pieces path).head? := by
    obtain ⟨first, rest, rfl⟩ := List.exists_cons_of_ne_nil hbefore
    rcases hpieces with hpieces | hpieces
    all_goals simp [hjoin, hpieces]
  have hinner : (pieces (join path name)).filterMap component? =
      (pieces path).filterMap component? ++ [.name name] := by
    have hempty : component? (RawText.ofString "") = none := rfl
    rcases hpieces with hpieces | hpieces
    all_goals simp [hjoin, hpieces, h.component?, hempty]
  rw [components, components, isAbsolute_join hpath h, hhead, hinner]
  split
  · rfl
  · split
    all_goals rfl

/-- The path to an entry has the names on the way behind the components of the directory. -/
theorem components_foldl_join {names : List RawText} (hpath : path ≠ "")
    (h : ∀ name ∈ names, IsEntryName name) :
    components (names.foldl join path) = components path ++ names.map .name := by
  induction names generalizing path with
  | nil => simp
  | cons name names ih =>
      obtain ⟨hname, hnames⟩ := List.forall_mem_cons.mp h
      rw [List.foldl_cons, ih (join_ne_empty hname) hnames, components_join hpath hname]
      simp

end Join

end Path

/-! ## The order of paths -/

/-- The kind of one component comes first in the order of kinds, or it is the same kind and the
bytes come first. -/
def Component.Before (a b : Component) : Prop :=
  a.rank < b.rank ∨ a.rank = b.rank ∧ a.bytes < b.bytes

namespace Component

theorem eq_of_rank_of_bytes {a b : Component} (hrank : a.rank = b.rank)
    (hbytes : a.bytes = b.bytes) : a = b := by
  cases a <;> cases b <;> simp_all [rank, bytes, RawText.ext_iff]

theorem le_iff {a b : Component} : a.le b = true ↔ ¬ b.Before a := by
  unfold le Before
  by_cases hrank : a.rank = b.rank
  · simp [hrank]
  · simp only [hrank, Ne.symm hrank, if_false, false_and, or_false, decide_eq_true_eq]
    omega

theorem Before.trans {a b c : Component} (hab : a.Before b) (hbc : b.Before c) : a.Before c := by
  rcases hab with hab | ⟨hab, hbytes⟩
  · rcases hbc with hbc | ⟨hbc, -⟩
    · exact .inl (hab.trans hbc)
    · exact .inl (hbc ▸ hab)
  · rcases hbc with hbc | ⟨hbc, hbytes'⟩
    · exact .inl (hab ▸ hbc)
    · exact .inr ⟨hab.trans hbc, List.lt_trans hbytes hbytes'⟩

instance : Std.Asymm Before where
  asymm := by
    intro a b hab hba
    rcases hab.trans hba with hrank | ⟨-, hbytes⟩
    · exact Nat.lt_irrefl _ hrank
    · exact List.lt_irrefl _ hbytes

instance : Std.Trichotomous Before where
  trichotomous := by
    intro a b hab hba
    obtain ⟨hrank, hbytes⟩ := not_or.mp hab
    obtain ⟨hrank', hbytes'⟩ := not_or.mp hba
    have hsame : a.rank = b.rank := by omega
    refine eq_of_rank_of_bytes hsame (List.le_antisymm ?_ ?_)
    · exact List.not_lt.mp fun h => hbytes' ⟨hsame.symm, h⟩
    · exact List.not_lt.mp fun h => hbytes ⟨hsame, h⟩

end Component

namespace Path

/-- One path comes before another one in the order of their components. -/
def Before (p q : RawText) : Prop :=
  List.Lex Component.Before (components p) (components q)

theorem componentsLe_iff {as bs : List Component} :
    componentsLe as bs = true ↔ ¬ List.Lex Component.Before bs as := by
  fun_induction componentsLe as bs with
  | case1 bs => simp
  | case2 a as => simp
  | case3 as b bs ih => rw [ih, List.lex_cons_iff]
  | case4 a as b bs hne =>
      rw [Component.le_iff, not_iff_not]
      constructor
      · exact .rel
      · rintro (_ | hbefore | _)
        · exact hbefore
        · exact absurd rfl hne

theorem le_iff {p q : RawText} : le p q = true ↔ ¬ Before q p :=
  componentsLe_iff

theorem Before.asymm {p q : RawText} (h : Before p q) : ¬ Before q p :=
  Std.Asymm.asymm (r := List.Lex Component.Before) _ _ h

theorem Before.trans {p q r : RawText} (hpq : Before p q) (hqr : Before q r) : Before p r :=
  List.lex_trans Component.Before.trans hpq hqr

/-- Paths with other components come before or after one another. -/
theorem before_or_before {p q : RawText} (h : components p ≠ components q) :
    Before p q ∨ Before q p := by
  rcases trichotomous_of (List.Lex Component.Before) (components p) (components q) with
    hpq | hsame | hqp
  · exact .inl hpq
  · exact absurd hsame h
  · exact .inr hqp

theorem le_total (p q : RawText) : (le p q || le q p) = true := by
  rw [Bool.or_eq_true, le_iff, le_iff]
  by_cases h : Before q p
  · exact .inr h.asymm
  · exact .inl h

theorem le_trans {p q r : RawText} (hpq : le p q = true) (hqr : le q r = true) :
    le p r = true := by
  rw [le_iff] at hpq hqr ⊢
  intro hrp
  by_cases hsame : components q = components r
  · rw [Before, ← hsame] at hrp
    exact hpq hrp
  · have hnext : Before q r := (before_or_before hsame).resolve_right hqr
    exact hpq (hnext.trans hrp)

/-- Sorted paths with different components are strictly increasing. -/
theorem pairwise_before_mergeSort {paths : List RawText} (h : (paths.map components).Nodup) :
    (paths.mergeSort le).Pairwise Before := by
  have hperm := List.mergeSort_perm paths le
  have hsorted : (paths.mergeSort le).Pairwise (fun p q => le p q = true) :=
    @List.pairwise_mergeSort RawText le (fun _ _ _ => le_trans) le_total paths
  have hdistinct : ((paths.mergeSort le).map components).Nodup :=
    (hperm.map components).nodup_iff.mpr h
  refine hsorted.imp₂ (fun p q hle hne => ?_) (List.pairwise_map.mp hdistinct)
  exact (before_or_before hne).resolve_right (le_iff.mp hle)

theorem nodup_of_pairwise_before {paths : List RawText} (h : paths.Pairwise Before) :
    (paths.map components).Nodup := by
  refine List.pairwise_map.mpr (h.imp fun {p q} hpq hsame => ?_)
  have hself : Before p p := by
    rw [Before, ← hsame] at hpq
    exact hpq
  exact hself.asymm hself

/-- Two strictly increasing lists of the same paths are one. -/
theorem eq_of_pairwise_before {ps qs : List RawText} (hps : ps.Pairwise Before)
    (hqs : qs.Pairwise Before) (h : ∀ p, p ∈ ps ↔ p ∈ qs) : ps = qs := by
  have hperm : ps.Perm qs :=
    (List.perm_ext_iff_of_nodup (List.Nodup.of_map _ (nodup_of_pairwise_before hps))
      (List.Nodup.of_map _ (nodup_of_pairwise_before hqs))).mpr h
  exact hperm.eq_of_pairwise (fun _ _ _ _ hpq hqp => absurd hqp hpq.asymm) hps hqs

/-- A strictly increasing list of some of the paths is part of that of all of them. -/
theorem sublist_of_pairwise_before {ps qs : List RawText} (hps : ps.Pairwise Before)
    (hqs : qs.Pairwise Before) (h : ∀ p ∈ ps, p ∈ qs) : ps.Sublist qs := by
  have hkept : ps = qs.filter (fun p => decide (p ∈ ps)) := by
    refine eq_of_pairwise_before hps (hqs.filter _) fun p => ?_
    rw [List.mem_filter, decide_eq_true_eq]
    exact ⟨fun hp => ⟨h p hp, hp⟩, fun hp => hp.2⟩
  rw [hkept]
  exact List.filter_sublist

end Path

end Files

end VideoCatalog
