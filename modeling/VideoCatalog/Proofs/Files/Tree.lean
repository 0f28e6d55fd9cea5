import VideoCatalog.Files.Volume
import VideoCatalog.Proofs.Files.Path

/-!
# Directory trees and the order of their listings

In a directory tree (`IsTree`) no directory has two entries of one name, and every name is one that
a directory can hold. `Leads` says that a row of names leads to a file, through directories only:
links are no part of such a way, wherever they point.

Two trees are one up to the order in which their directories are listed (`Relisted`) if one comes
out of the other by exchanging neighbours, at any depth. Such trees lead to the same files
(`Relisted.leads_iff`), and following a path ends alike in both, links on the way included
(`Volume.follow_relisted`, `Volume.entry_relisted`).
-/

namespace VideoCatalog.Files

/-! ## Trees -/

/-- A directory tree. -/
inductive IsTree : List (RawText × Entry) → Prop where
  | nil : IsTree []
  | file {name : RawText} {content : ByteArray} {entries : List (RawText × Entry)} :
      IsEntryName name → name ∉ entries.map Prod.fst → IsTree entries →
        IsTree ((name, .file content) :: entries)
  | link {name target : RawText} {entries : List (RawText × Entry)} :
      IsEntryName name → name ∉ entries.map Prod.fst → IsTree entries →
        IsTree ((name, .link target) :: entries)
  | directory {name : RawText} {inner entries : List (RawText × Entry)} :
      IsEntryName name → name ∉ entries.map Prod.fst → IsTree inner → IsTree entries →
        IsTree ((name, .directory inner) :: entries)

/-- The names lead from the entries of a directory to a file, through directories. -/
inductive Leads : List (RawText × Entry) → List RawText → Prop where
  | file {name : RawText} {content : ByteArray} {entries : List (RawText × Entry)} :
      (name, .file content) ∈ entries → Leads entries [name]
  | inside {name : RawText} {inner entries : List (RawText × Entry)} {names : List RawText} :
      (name, .directory inner) ∈ entries → Leads inner names → Leads entries (name :: names)

/-- The names lead to a file at an entry of this name or below it. -/
def LeadsAt (name : RawText) : Entry → List RawText → Prop
  | .file _, names => names = [name]
  | .directory inner, names => ∃ rest, names = name :: rest ∧ Leads inner rest
  | .link _, _ => False

section

variable {name : RawText} {entry : Entry} {entries inner : List (RawText × Entry)}
  {names : List RawText}

theorem isTree_cons_iff :
    IsTree ((name, entry) :: entries) ↔ IsEntryName name ∧ name ∉ entries.map Prod.fst ∧
      (∀ inner, entry = .directory inner → IsTree inner) ∧ IsTree entries := by
  constructor
  · rintro (_ | ⟨hname, hnew, hrest⟩ | ⟨hname, hnew, hrest⟩ | ⟨hname, hnew, hinner, hrest⟩)
    · exact ⟨hname, hnew, fun _ h => (by cases h), hrest⟩
    · exact ⟨hname, hnew, fun _ h => (by cases h), hrest⟩
    · exact ⟨hname, hnew, fun _ h => (Entry.directory.inj h) ▸ hinner, hrest⟩
  · rintro ⟨hname, hnew, hinner, hrest⟩
    cases entry with
    | file content => exact .file hname hnew hrest
    | directory inner => exact .directory hname hnew (hinner inner rfl) hrest
    | link target => exact .link hname hnew hrest

theorem IsTree.isEntryName (h : IsTree entries) (hmem : name ∈ entries.map Prod.fst) :
    IsEntryName name := by
  induction entries with
  | nil => exact nomatch hmem
  | cons e entries ih =>
      obtain ⟨hname, -, -, hrest⟩ := isTree_cons_iff.mp h
      rcases List.mem_cons.mp hmem with rfl | hmem
      · exact hname
      · exact ih hrest hmem

theorem IsTree.of_mem (h : IsTree entries) (hmem : (name, .directory inner) ∈ entries) :
    IsTree inner := by
  induction entries with
  | nil => exact nomatch hmem
  | cons e entries ih =>
      obtain ⟨-, -, hinner, hrest⟩ := isTree_cons_iff.mp h
      rcases List.mem_cons.mp hmem with rfl | hmem
      · exact hinner inner rfl
      · exact ih hrest hmem

theorem Leads.isEntryName (h : Leads entries names) (htree : IsTree entries) :
    ∀ name ∈ names, IsEntryName name := by
  induction h with
  | file hmem =>
      rw [List.forall_mem_singleton]
      exact htree.isEntryName (List.mem_map_of_mem hmem)
  | inside hmem _ ih =>
      rw [List.forall_mem_cons]
      exact ⟨htree.isEntryName (List.mem_map_of_mem hmem), ih (htree.of_mem hmem)⟩

/-- A way begins with the name of an entry. -/
theorem Leads.exists_cons (h : Leads entries names) :
    ∃ name rest, names = name :: rest ∧ name ∈ entries.map Prod.fst := by
  cases h with
  | file hmem => exact ⟨_, _, rfl, List.mem_map_of_mem hmem⟩
  | inside hmem _ => exact ⟨_, _, rfl, List.mem_map_of_mem hmem⟩

theorem Leads.ne_nil (h : Leads entries names) : names ≠ [] := by
  obtain ⟨name, rest, rfl, -⟩ := h.exists_cons
  exact List.cons_ne_nil name rest

theorem LeadsAt.exists_cons (h : LeadsAt name entry names) : ∃ rest, names = name :: rest := by
  cases entry with
  | file content => exact ⟨[], h⟩
  | directory inner =>
      obtain ⟨rest, rfl, -⟩ := h
      exact ⟨rest, rfl⟩
  | link target => exact h.elim

/-- A way leads to or through the first entry or one of the others. -/
theorem leads_cons_iff :
    Leads ((name, entry) :: entries) names ↔ LeadsAt name entry names ∨ Leads entries names := by
  constructor
  · rintro (hmem | ⟨hmem, hrest⟩)
    · rcases List.mem_cons.mp hmem with hhead | hmem
      · obtain ⟨rfl, rfl⟩ := Prod.mk.inj hhead
        exact .inl rfl
      · exact .inr (.file hmem)
    · rcases List.mem_cons.mp hmem with hhead | hmem
      · obtain ⟨rfl, rfl⟩ := Prod.mk.inj hhead
        exact .inl ⟨_, rfl, hrest⟩
      · exact .inr (.inside hmem hrest)
  · rintro (hat | hmem | ⟨hmem, hrest⟩)
    · cases entry with
      | file content =>
          obtain rfl := hat
          exact .file List.mem_cons_self
      | directory inner =>
          obtain ⟨rest, rfl, hrest⟩ := hat
          exact .inside List.mem_cons_self hrest
      | link target => exact hat.elim
    · exact .file (List.mem_cons_of_mem _ hmem)
    · exact .inside (List.mem_cons_of_mem _ hmem) hrest

end

/-! ## Other orders -/

/-- The same entries, listed in another order here or further inside. -/
inductive Relisted : List (RawText × Entry) → List (RawText × Entry) → Prop where
  | refl (entries : List (RawText × Entry)) : Relisted entries entries
  | cons (e : RawText × Entry) {es es' : List (RawText × Entry)} :
      Relisted es es' → Relisted (e :: es) (e :: es')
  | inside (name : RawText) (es : List (RawText × Entry)) {inner inner' : List (RawText × Entry)} :
      Relisted inner inner' →
        Relisted ((name, .directory inner) :: es) ((name, .directory inner') :: es)
  | swap (d e : RawText × Entry) (es : List (RawText × Entry)) :
      Relisted (d :: e :: es) (e :: d :: es)
  | trans {es es' es'' : List (RawText × Entry)} :
      Relisted es es' → Relisted es' es'' → Relisted es es''

namespace Relisted

variable {es es' : List (RawText × Entry)}

theorem symm (h : Relisted es es') : Relisted es' es := by
  induction h with
  | refl es => exact .refl es
  | cons e _ ih => exact .cons e ih
  | inside name es _ ih => exact .inside name es ih
  | swap d e es => exact .swap e d es
  | trans _ _ ih ih' => exact .trans ih' ih

theorem perm_names (h : Relisted es es') : (es.map Prod.fst).Perm (es'.map Prod.fst) := by
  induction h with
  | refl es => exact .refl _
  | cons e _ ih => exact .cons _ ih
  | inside name es _ _ => exact .refl _
  | swap d e es => exact .swap _ _ _
  | trans _ _ ih ih' => exact ih.trans ih'

theorem isTree (h : Relisted es es') (htree : IsTree es) : IsTree es' := by
  induction h with
  | refl es => exact htree
  | cons e hrest ih =>
      obtain ⟨hname, hnew, hinner, htree⟩ := isTree_cons_iff.mp htree
      rw [hrest.perm_names.mem_iff] at hnew
      exact isTree_cons_iff.mpr ⟨hname, hnew, hinner, ih htree⟩
  | inside name es _ ih =>
      obtain ⟨hname, hnew, hinner, htree⟩ := isTree_cons_iff.mp htree
      exact .directory hname hnew (ih (hinner _ rfl)) htree
  | swap d e es =>
      obtain ⟨hd, hdnew, hdinner, hrest⟩ := isTree_cons_iff.mp htree
      obtain ⟨he, henew, heinner, hes⟩ := isTree_cons_iff.mp hrest
      obtain ⟨hne, hdes⟩ := List.ne_and_not_mem_of_not_mem_cons hdnew
      refine isTree_cons_iff.mpr ⟨he, ?_, heinner, isTree_cons_iff.mpr ⟨hd, hdes, hdinner, hes⟩⟩
      exact List.not_mem_cons_of_ne_of_not_mem (Ne.symm hne) henew
  | trans _ _ ih ih' => exact ih' (ih htree)

theorem leads (h : Relisted es es') :
    ∀ {names : List RawText}, Leads es names → Leads es' names := by
  induction h with
  | refl es => exact fun h => h
  | cons e _ ih =>
      intro names hleads
      rw [leads_cons_iff] at hleads ⊢
      exact hleads.imp_right ih
  | inside name es _ ih =>
      intro names hleads
      rw [leads_cons_iff] at hleads ⊢
      refine hleads.imp_left ?_
      rintro ⟨rest, rfl, hrest⟩
      exact ⟨rest, rfl, ih hrest⟩
  | swap d e es =>
      intro names hleads
      rw [leads_cons_iff, leads_cons_iff] at hleads ⊢
      exact or_left_comm.mp hleads
  | trans _ _ ih ih' => exact fun h => ih' (ih h)

/-- The ways to files are the same in any order. -/
theorem leads_iff (h : Relisted es es') {names : List RawText} :
    Leads es names ↔ Leads es' names :=
  ⟨h.leads, h.symm.leads⟩

end Relisted

/-! ## What a path leads to -/

/-- The same entry, up to the order in which directories are listed. -/
inductive SameEntry : Entry → Entry → Prop where
  | file (content : ByteArray) : SameEntry (.file content) (.file content)
  | link (target : RawText) : SameEntry (.link target) (.link target)
  | directory {inner inner' : List (RawText × Entry)} :
      IsTree inner → Relisted inner inner' → SameEntry (.directory inner) (.directory inner')

/-- The same place or the same failure. -/
inductive SameOutcome : Except IoError Place → Except IoError Place → Prop where
  | error (e : IoError) : SameOutcome (.error e) (.error e)
  | ok (names : List RawText) {entry entry' : Option Entry} : Option.Rel SameEntry entry entry' →
      SameOutcome (.ok ⟨names, entry⟩) (.ok ⟨names, entry'⟩)

theorem SameEntry.trans {a b c : Entry} (hab : SameEntry a b) (hbc : SameEntry b c) :
    SameEntry a c := by
  cases hab with
  | file content => exact hbc
  | link target => exact hbc
  | directory htree hinner =>
      cases hbc with
      | directory _ hinner' => exact .directory htree (hinner.trans hinner')

theorem SameEntry.rel_trans {a b c : Option Entry} (hab : Option.Rel SameEntry a b)
    (hbc : Option.Rel SameEntry b c) : Option.Rel SameEntry a c := by
  cases hab with
  | some hab =>
      cases hbc with
      | some hbc => exact .some (hab.trans hbc)
  | none => exact hbc

theorem SameEntry.refl {entry : Entry} (h : ∀ inner, entry = .directory inner → IsTree inner) :
    SameEntry entry entry := by
  cases entry with
  | file content => exact .file content
  | directory inner => exact .directory (h inner rfl) (.refl inner)
  | link target => exact .link target

theorem entryIn?_cons (name : RawText) (e : RawText × Entry) (es : List (RawText × Entry)) :
    entryIn? name (e :: es) = if e.1 = name then some e.2 else entryIn? name es := by
  rw [entryIn?, List.find?_cons]
  by_cases h : e.1 = name
  · simp [h]
  · have hne : (e.1 == name) = false := beq_eq_false_iff_ne.mpr h
    rw [hne, if_neg h]
    rfl

theorem entryIn?_same {es : List (RawText × Entry)} (htree : IsTree es) (name : RawText) :
    Option.Rel SameEntry (entryIn? name es) (entryIn? name es) := by
  induction es with
  | nil => exact .none
  | cons e es ih =>
      obtain ⟨-, -, hinner, htree⟩ := isTree_cons_iff.mp htree
      rw [entryIn?_cons]
      split
      · exact .some (.refl hinner)
      · exact ih htree

/-- The entry of a name is the same in any order, as no other entry has this name. -/
theorem entryIn?_relisted {es es' : List (RawText × Entry)} (h : Relisted es es')
    (htree : IsTree es) (name : RawText) :
    Option.Rel SameEntry (entryIn? name es) (entryIn? name es') := by
  induction h with
  | refl es => exact entryIn?_same htree name
  | cons e _ ih =>
      obtain ⟨-, -, hinner, htree⟩ := isTree_cons_iff.mp htree
      rw [entryIn?_cons, entryIn?_cons]
      split
      · exact .some (.refl hinner)
      · exact ih htree
  | inside m es hrest _ =>
      obtain ⟨-, -, hinner, htree⟩ := isTree_cons_iff.mp htree
      rw [entryIn?_cons, entryIn?_cons]
      split
      · exact .some (.directory (hinner _ rfl) hrest)
      · exact entryIn?_same htree name
  | swap d e es =>
      have hsame := entryIn?_same htree name
      obtain ⟨-, hnew, -, -⟩ := isTree_cons_iff.mp htree
      have hne : d.1 ≠ e.1 := (List.ne_and_not_mem_of_not_mem_cons hnew).1
      have horder : entryIn? name (e :: d :: es) = entryIn? name (d :: e :: es) := by
        simp only [entryIn?_cons]
        by_cases hd : d.1 = name
        · rw [if_pos hd, if_neg (fun he => hne (hd.trans he.symm)), if_pos hd]
        · rw [if_neg hd, if_neg hd]
      rwa [horder]
  | trans hfirst _ ih ih' =>
      exact SameEntry.rel_trans (ih htree) (ih' (hfirst.isTree htree))

theorem entryAt?_relisted {es es' : List (RawText × Entry)} (h : Relisted es es')
    (htree : IsTree es) (names : List RawText) :
    Option.Rel SameEntry (Volume.entryAt? es names) (Volume.entryAt? es' names) := by
  induction names generalizing es es' with
  | nil => exact .some (.directory htree h)
  | cons name names ih =>
      have hentry := entryIn?_relisted h htree name
      rw [Volume.entryAt?, Volume.entryAt?]
      generalize entryIn? name es = entry, entryIn? name es' = entry' at hentry
      rcases hentry with ⟨content | target | ⟨hinner, hrelisted⟩⟩ | _
      · dsimp only
        split
        · exact .some (.file content)
        · exact .none
      · dsimp only
        split
        · exact .some (.link target)
        · exact .none
      · exact ih hrelisted hinner
      · exact .none

namespace Volume

variable {s s' : Volume}

/-- Following a path ends alike in trees that differ in their order only. -/
theorem follow_relisted (hroot : Relisted s.root s'.root) (htree : IsTree s.root) (last : Bool) :
    ∀ fuel links here pieces, SameOutcome (s.follow last fuel links here pieces)
      (s'.follow last fuel links here pieces) := by
  intro fuel
  induction fuel with
  | zero => exact fun _ _ _ => .error _
  | succ fuel ih =>
      intro links here pieces
      have hhere := entryAt?_relisted hroot htree here
      cases pieces with
      | nil => exact .ok here hhere
      | cons piece rest =>
          rw [follow, follow]
          generalize entryAt? s.root here = entry, entryAt? s'.root here = entry' at hhere
          rcases hhere with ⟨content | target | @⟨inner, inner', hinner, hrelisted⟩⟩ | _
          · exact .error _
          · exact .error _
          · have hentry := entryIn?_relisted hrelisted hinner piece
            dsimp only
            split
            · exact ih links here rest
            split
            · exact ih links here.dropLast rest
            split
            · exact .error _
            -- The piece is a name, so what it names decides how it goes on.
            generalize entryIn? piece inner = entry, entryIn? piece inner' = entry' at hentry
            rcases hentry with ⟨content | target | ⟨hinner, hrelisted⟩⟩ | _
            · exact ih links (here ++ [piece]) rest
            · dsimp only
              split
              · exact .ok _ (.some (.link target))
              split
              · exact .error _
              split
              · exact ih (links - 1) [] _
              · exact ih (links - 1) here _
            · exact ih links (here ++ [piece]) rest
            · dsimp only
              split
              · exact .ok _ .none
              · exact .error _
          · exact .error _

theorem locate_relisted (hroot : Relisted s.root s'.root) (hstart : s'.start = s.start)
    (htree : IsTree s.root) (last : Bool) (path : RawText) :
    SameOutcome (s.locate last path) (s'.locate last path) := by
  rw [locate, locate, hstart]
  split
  · exact .error _
  split
  · exact .error _
  · exact follow_relisted hroot htree last _ _ _ _

/-- What a path leads to is the same in both trees, or it fails alike. -/
theorem entry_relisted (hroot : Relisted s.root s'.root) (hstart : s'.start = s.start)
    (htree : IsTree s.root) (path : RawText) :
    (∃ e, s.entry path = .error e ∧ s'.entry path = .error e) ∨
      ∃ entry entry', s.entry path = .ok entry ∧ s'.entry path = .ok entry' ∧
        SameEntry entry entry' := by
  have hplace := locate_relisted hroot hstart htree true path
  rw [entry, entry]
  generalize s.locate true path = place, s'.locate true path = place' at hplace
  cases hplace with
  | error e => exact .inl ⟨e, rfl, rfl⟩
  | ok names hentry =>
      cases hentry with
      | some hentry => exact .inr ⟨_, _, rfl, rfl, hentry⟩
      | none => exact .inl ⟨.notFound, rfl, rfl⟩

/-- A path that leads to a directory of a tree leads to a tree. -/
theorem isTree_of_entry (htree : IsTree s.root) {path : RawText}
    {entries : List (RawText × Entry)} (h : s.entry path = .ok (.directory entries)) :
    IsTree entries := by
  rcases entry_relisted (.refl s.root) rfl htree path with ⟨e, he, -⟩ | ⟨_, _, he, -, hsame⟩
  · cases he.symm.trans h
  · obtain rfl := Except.ok.inj (he.symm.trans h)
    cases hsame with
    | directory htree _ => exact htree

end Volume

end VideoCatalog.Files
