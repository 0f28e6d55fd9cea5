import VideoCatalog.Discovery
import VideoCatalog.Proofs.Files.Tree

/-!
# The files that are found

Below a directory exactly those files are visited to which names lead within the limit on
directories (`mem_visitAll_iff`), each of them once (`nodup_visitAll`). Sorting them makes them
strictly increasing, and there is only one strictly increasing list of them. So the order in which
directories are listed does not matter (`files_relisted`), and a wider limit adds files and keeps
the others (`files_wider`).
-/

namespace VideoCatalog

open Files (Entry IsEntryName IsTree Leads LeadsAt Relisted Volume)
open Files.Path (Before components join)

namespace FileFilter

/-- So many directories on the way are within the limit. -/
def Within (f : FileFilter) (directories : Nat) : Prop :=
  ∀ limit, f.maxDepth = some limit → directories ≤ limit

variable {f : FileFilter} {depth : Nat}

theorem allows_iff : f.allows depth = true ↔ f.Within depth := by
  rw [allows, Within]
  cases f.maxDepth with
  | none => simp
  | some limit => simp

theorem entersAt_iff : f.entersAt depth = true ↔ f.Within (depth + 1) := by
  rw [entersAt, Within]
  cases f.maxDepth with
  | none => simp
  | some limit => simp [Nat.succ_le_iff]

theorem Within.mono {fewer : Nat} (h : f.Within depth) (hle : fewer ≤ depth) : f.Within fewer :=
  fun limit hlimit => hle.trans (h limit hlimit)

end FileFilter

namespace Discovery

variable {f : FileFilter}

/-! ## What is visited -/

/-- Nothing is looked for behind links. -/
def passLinks : Nat → RawText → List RawText :=
  fun _ _ => []

theorem behindLink_false (f : FileFilter) (s : Volume) (links : Nat) :
    behindLink f s false links = passLinks := by
  cases links with
  | zero => rfl
  | succ links => rfl

/-- The file counts, and this row of names leads to it from the directory. -/
structure IsFoundBy (f : FileFilter) (depth : Nat) (directory p : RawText) (names : List RawText) :
    Prop where
  within : f.Within (depth + names.dropLast.length)
  path : p = names.foldl join directory
  accepted : f.accepts p = true

/-- A directory on the way counts as one on the limit, and its name is the first one. -/
theorem isFoundBy_cons_iff {depth : Nat} {directory p name : RawText} {rest : List RawText}
    (h : rest ≠ []) : IsFoundBy f depth directory p (name :: rest) ↔
      IsFoundBy f (depth + 1) (join directory name) p rest := by
  have hdepth : depth + (name :: rest).dropLast.length = depth + 1 + rest.dropLast.length := by
    rw [List.dropLast_cons_of_ne_nil h, List.length_cons]
    omega
  constructor
  · rintro ⟨hwithin, hpath, haccepted⟩
    exact ⟨hdepth ▸ hwithin, hpath, haccepted⟩
  · rintro ⟨hwithin, hpath, haccepted⟩
    exact ⟨hdepth ▸ hwithin, hpath, haccepted⟩

theorem isFoundBy_singleton_iff {depth : Nat} {directory p name : RawText} :
    IsFoundBy f depth directory p [name] ↔
      f.allows depth = true ∧ f.accepts (join directory name) = true ∧ p = join directory name := by
  rw [FileFilter.allows_iff]
  constructor
  · rintro ⟨hwithin, rfl, haccepted⟩
    exact ⟨hwithin, haccepted, rfl⟩
  · rintro ⟨hwithin, haccepted, rfl⟩
    exact ⟨hwithin, rfl, haccepted⟩

mutual
theorem mem_visit_iff (depth : Nat) (directory p name : RawText) : ∀ entry : Entry,
    p ∈ visit f passLinks depth (join directory name) entry ↔
      ∃ names, LeadsAt name entry names ∧ IsFoundBy f depth directory p names
  | .file content => by
      simp only [LeadsAt, exists_eq_left, isFoundBy_singleton_iff, visit, Bool.and_eq_true]
      split
      · next h => simp [h.1, h.2]
      · next h => exact iff_of_false List.not_mem_nil fun h' => h ⟨h'.1, h'.2.1⟩
  | .directory inner => by
      rw [visit]
      constructor
      · intro hp
        split at hp
        · obtain ⟨rest, hrest, hfound⟩ := (mem_visitAll_iff _ _ p inner).mp hp
          exact ⟨name :: rest, ⟨rest, rfl, hrest⟩, (isFoundBy_cons_iff hrest.ne_nil).mpr hfound⟩
        · exact nomatch hp
      · rintro ⟨_, ⟨rest, rfl, hrest⟩, hfound⟩
        rw [isFoundBy_cons_iff hrest.ne_nil] at hfound
        have henters : f.entersAt depth = true :=
          FileFilter.entersAt_iff.mpr (hfound.within.mono (Nat.le_add_right _ _))
        rw [if_pos henters]
        exact (mem_visitAll_iff _ _ p inner).mpr ⟨rest, hrest, hfound⟩
  | .link target => by
      refine iff_of_false List.not_mem_nil ?_
      rintro ⟨names, hleads, -⟩
      exact hleads

/-- Exactly the files to which names lead within the limit are visited, if they count. -/
theorem mem_visitAll_iff (depth : Nat) (directory p : RawText) : ∀ entries : List (RawText × Entry),
    p ∈ visitAll f passLinks depth directory entries ↔
      ∃ names, Leads entries names ∧ IsFoundBy f depth directory p names
  | [] => by
      refine iff_of_false List.not_mem_nil ?_
      rintro ⟨names, hleads, -⟩
      obtain ⟨name, rest, -, hname⟩ := hleads.exists_cons
      exact nomatch hname
  | (name, entry) :: entries => by
      rw [visitAll, List.mem_append, mem_visit_iff, mem_visitAll_iff, ← exists_or]
      simp only [← or_and_right, ← Files.leads_cons_iff]
end

/-- The path of a file that is found has the names on the way behind the directory. -/
theorem IsFoundBy.components_eq {entries : List (RawText × Entry)} {depth : Nat}
    {directory p : RawText} {names : List RawText} (h : IsFoundBy f depth directory p names)
    (hdirectory : directory ≠ "") (htree : IsTree entries) (hleads : Leads entries names) :
    components p = components directory ++ names.map .name := by
  rw [h.path, Files.Path.components_foldl_join hdirectory (hleads.isEntryName htree)]

/-- What is found at the first entry has its name behind the directory, and the rest has others. -/
theorem nodup_visitAll_cons {name : RawText} {entry : Entry} {entries : List (RawText × Entry)}
    (htree : IsTree ((name, entry) :: entries)) {depth : Nat} {directory : RawText}
    (hdirectory : directory ≠ "")
    (hfirst : ((visit f passLinks depth (join directory name) entry).map components).Nodup)
    (hrest : ((visitAll f passLinks depth directory entries).map components).Nodup) :
    ((visitAll f passLinks depth directory ((name, entry) :: entries)).map components).Nodup := by
  rw [visitAll, List.map_append]
  refine List.nodup_append.mpr ⟨hfirst, hrest, ?_⟩
  intro c hc d hd hsame
  obtain ⟨p, hp, rfl⟩ := List.mem_map.mp hc
  obtain ⟨q, hq, rfl⟩ := List.mem_map.mp hd
  obtain ⟨names, hat, hfound⟩ := (mem_visit_iff depth directory p name entry).mp hp
  obtain ⟨names', hleads', hfound'⟩ := (mem_visitAll_iff depth directory q entries).mp hq
  have hleads : Leads ((name, entry) :: entries) names := Files.leads_cons_iff.mpr (.inl hat)
  rw [hfound.components_eq hdirectory htree hleads,
    hfound'.components_eq hdirectory htree (Files.leads_cons_iff.mpr (.inr hleads')),
    List.append_cancel_left_eq, List.map_inj_right fun _ _ => Files.Component.name.inj] at hsame
  obtain ⟨rest, rfl⟩ := hat.exists_cons
  obtain ⟨name', rest', rfl, hname'⟩ := hleads'.exists_cons
  obtain ⟨rfl, -⟩ := List.cons.inj hsame
  obtain ⟨-, hnew, -⟩ := Files.isTree_cons_iff.mp htree
  exact hnew hname'

/-- Different ways lead to different files, so none is visited twice. -/
theorem nodup_visitAll {entries : List (RawText × Entry)} (htree : IsTree entries) {depth : Nat}
    {directory : RawText} (hdirectory : directory ≠ "") :
    ((visitAll f passLinks depth directory entries).map components).Nodup := by
  induction htree generalizing depth directory with
  | nil => exact List.nodup_nil
  | file hname hnew hentries ih =>
      refine nodup_visitAll_cons (.file hname hnew hentries) hdirectory ?_ (ih hdirectory)
      rw [visit]
      split
      · exact List.nodup_singleton _
      · exact List.nodup_nil
  | link hname hnew hentries ih =>
      exact nodup_visitAll_cons (.link hname hnew hentries) hdirectory List.nodup_nil
        (ih hdirectory)
  | directory hname hnew hinner hentries ih ih' =>
      refine nodup_visitAll_cons (.directory hname hnew hinner hentries) hdirectory ?_
        (ih' hdirectory)
      rw [visit]
      split
      · exact ih (Files.Path.join_ne_empty hname)
      · exact List.nodup_nil

/-! ## What is found -/

section

variable {s : Volume} {path : RawText} {entries : List (RawText × Entry)}

theorem path_ne_empty {entry : Entry} (h : s.entry path = .ok entry) : path ≠ "" := by
  rintro rfl
  cases h

theorem files_of_directory (hentry : s.entry path = .ok (.directory entries)) :
    files f s false path = .ok ((visitAll f passLinks 0 path entries).mergeSort Files.Path.le) := by
  rw [files, hentry, behindLink_false]
  rfl

theorem files_of_other {entry : Entry} (hentry : s.entry path = .ok entry)
    (hother : ∀ entries, entry ≠ .directory entries) :
    files f s false path = .ok (if f.accepts path then [path] else []) := by
  rw [files, hentry]
  cases entry with
  | file content => rfl
  | directory entries => exact absurd rfl (hother entries)
  | link target => rfl

theorem files_of_error {e : Files.IoError} (hentry : s.entry path = .error e) :
    files f s false path = .error e := by
  rw [files, hentry]
  rfl

/-- The file counts, and names lead to it from the directory within the limit. -/
def IsReachable (f : FileFilter) (entries : List (RawText × Entry)) (path p : RawText) : Prop :=
  ∃ names, Leads entries names ∧ f.Within names.dropLast.length ∧
    p = names.foldl join path ∧ f.accepts p = true

theorem exists_files (htree : IsTree s.root) (hentry : s.entry path = .ok (.directory entries)) :
    ∃ found, files f s false path = .ok found ∧ found.Pairwise Before ∧
      ∀ p, p ∈ found ↔ IsReachable f entries path p := by
  refine ⟨_, files_of_directory hentry, ?_, fun p => ?_⟩
  · exact Files.Path.pairwise_before_mergeSort
      (nodup_visitAll (Files.Volume.isTree_of_entry htree hentry) (path_ne_empty hentry))
  · rw [List.mem_mergeSort, mem_visitAll_iff]
    refine exists_congr fun names => and_congr_right fun _ => ?_
    constructor
    · rintro ⟨hwithin, hpath, haccepted⟩
      exact ⟨by simpa using hwithin, hpath, haccepted⟩
    · rintro ⟨hwithin, hpath, haccepted⟩
      exact ⟨by simpa using hwithin, hpath, haccepted⟩

/-- A wider limit leads to more files. -/
theorem IsReachable.mono {wider : Option Nat} {p : RawText}
    (hwider : ∀ limit, wider = some limit → ∃ narrow, f.maxDepth = some narrow ∧ narrow ≤ limit)
    (h : IsReachable f entries path p) :
    IsReachable { f with maxDepth := wider } entries path p := by
  obtain ⟨names, hleads, hwithin, hpath, haccepted⟩ := h
  refine ⟨names, hleads, fun limit hlimit => ?_, hpath, haccepted⟩
  obtain ⟨narrow, hnarrow, hle⟩ := hwider limit hlimit
  exact (hwithin narrow hnarrow).trans hle

theorem isReachable_relisted {entries' : List (RawText × Entry)} (h : Relisted entries entries')
    (p : RawText) : IsReachable f entries path p ↔ IsReachable f entries' path p :=
  exists_congr fun _ => and_congr_left fun _ => h.leads_iff

/-- Files listed in another order are found alike. -/
theorem files_relisted {s' : Volume} (htree : IsTree s.root) (hroot : Relisted s.root s'.root)
    (hstart : s'.start = s.start) : files f s' false path = files f s false path := by
  rcases Files.Volume.entry_relisted hroot hstart htree path with
    ⟨e, he, he'⟩ | ⟨entry, entry', he, he', hsame⟩
  · rw [files_of_error he, files_of_error he']
  · cases hsame with
    | file content => rw [files_of_other he nofun, files_of_other he' nofun]
    | link target => rw [files_of_other he nofun, files_of_other he' nofun]
    | directory _ hinner =>
        obtain ⟨found, hfound, hsorted, hmem⟩ := exists_files htree he
        obtain ⟨found', hfound', hsorted', hmem'⟩ := exists_files (hroot.isTree htree) he'
        have hboth : found' = found := by
          refine Files.Path.eq_of_pairwise_before hsorted' hsorted fun p => ?_
          exact (hmem' p).trans ((isReachable_relisted hinner p).symm.trans (hmem p).symm)
        rw [hfound, hfound', hboth]

/-- A wider limit adds files and keeps the others as they are. -/
theorem files_wider {wider : Option Nat} {found : List RawText} (htree : IsTree s.root)
    (hwider : ∀ limit, wider = some limit → ∃ narrow, f.maxDepth = some narrow ∧ narrow ≤ limit)
    (hfound : files f s false path = .ok found) :
    ∃ found', files { f with maxDepth := wider } s false path = .ok found' ∧
      found.Sublist found' := by
  cases hentry : s.entry path with
  | error e => cases (files_of_error hentry).symm.trans hfound
  | ok entry =>
      by_cases hdirectory : ∃ entries, entry = .directory entries
      · obtain ⟨entries, rfl⟩ := hdirectory
        obtain ⟨_, hsame, hsorted, hmem⟩ := exists_files htree hentry
        obtain rfl := Except.ok.inj (hfound.symm.trans hsame)
        obtain ⟨found', hfound', hsorted', hmem'⟩ :=
          exists_files (f := { f with maxDepth := wider }) htree hentry
        refine ⟨found', hfound', Files.Path.sublist_of_pairwise_before hsorted hsorted' ?_⟩
        exact fun p hp => (hmem' p).mpr (((hmem p).mp hp).mono hwider)
      · have hother : ∀ entries, entry ≠ .directory entries := fun entries h => hdirectory ⟨_, h⟩
        obtain rfl := Except.ok.inj ((files_of_other hentry hother).symm.trans hfound)
        exact ⟨_, files_of_other hentry hother, .refl _⟩

/-- Of the files below a directory exactly those are found that count and to which names lead within
the limit, each once and in the order of paths; a file is found itself if it counts. In what order
directories are listed does not matter, and a wider limit only adds files. -/
theorem files_are_the_reachable_ones (f : FileFilter) (s : Volume) (htree : IsTree s.root)
    (path : RawText) :
    (∀ entries, s.entry path = .ok (.directory entries) →
      ∃ found, files f s false path = .ok found ∧ found.Pairwise Before ∧
        (found.map components).Nodup ∧ ∀ p, p ∈ found ↔ IsReachable f entries path p) ∧
    (∀ content, s.entry path = .ok (.file content) →
      files f s false path = .ok (if f.accepts path then [path] else [])) ∧
    (∀ e, s.entry path = .error e → files f s false path = .error e) ∧
    (∀ s' : Volume, Relisted s.root s'.root → s'.start = s.start →
      files f s' false path = files f s false path) ∧
    (∀ wider : Option Nat,
      (∀ limit, wider = some limit → ∃ narrow, f.maxDepth = some narrow ∧ narrow ≤ limit) →
      ∀ found, files f s false path = .ok found →
        ∃ found', files { f with maxDepth := wider } s false path = .ok found' ∧
          found.Sublist found') := by
  refine ⟨fun entries hentry => ?_, fun _ hentry => files_of_other hentry nofun,
    fun _ => files_of_error, fun s' => files_relisted htree,
    fun wider hwider found => files_wider htree hwider⟩
  obtain ⟨found, hfound, hsorted, hmem⟩ := exists_files htree hentry
  exact ⟨found, hfound, hsorted, Files.Path.nodup_of_pairwise_before hsorted, hmem⟩

end

/-!
## Links in a tree

A document at the top, one in a directory and one further down. One link leads back to the top, and
one leads nowhere.
-/

namespace Linked

def deep : List (RawText × Entry) :=
  [("d.xml", .file "".toUTF8)]

def batch : List (RawText × Entry) :=
  [("c.xml", .file "".toUTF8), ("deep", .directory deep), ("up", .link "..")]

def top : List (RawText × Entry) :=
  [("a.xml", .file "".toUTF8), ("batch", .directory batch), ("gone", .link "nowhere")]

/-- The directory, listed in another order. -/
def shuffledBatch : List (RawText × Entry) :=
  [("deep", .directory deep), ("c.xml", .file "".toUTF8), ("up", .link "..")]

/-- The tree with its two upper directories listed in another order. -/
def shuffled : List (RawText × Entry) :=
  [("batch", .directory shuffledBatch), ("a.xml", .file "".toUTF8), ("gone", .link "nowhere")]

def filter : FileFilter where
  extensions := ["xml"]
  inclusions := []
  exclusions := []
  maxDepth := some 1

theorem isTree_top : IsTree top := by
  have hdeep : IsTree deep := .file (by decide) (by decide) .nil
  have hbatch : IsTree batch :=
    .file (by decide) (by decide)
      (.directory (by decide) (by decide) hdeep (.link (by decide) (by decide) .nil))
  exact .file (by decide) (by decide)
    (.directory (by decide) (by decide) hbatch (.link (by decide) (by decide) .nil))

theorem relisted_top : Relisted top shuffled :=
  (Relisted.swap _ _ _).trans (.inside "batch" _ (.swap _ _ _))

/-- The document further down is beyond the limit, and nothing is found behind the links. Listed in
another order the same files are found, without a limit all three. -/
theorem files_are_the_reachable_ones_linked :
    files filter { root := top } false "." = .ok ["./a.xml", "./batch/c.xml"] ∧
      files filter { root := shuffled } false "." = .ok ["./a.xml", "./batch/c.xml"] ∧
      (∃ found, files { filter with maxDepth := none } { root := top } false "." = .ok found ∧
        List.Sublist (["./a.xml", "./batch/c.xml"] : List RawText) found ∧
          RawText.ofString "./batch/deep/d.xml" ∈ found) ∧
      files filter { root := top } false "batch/c.xml" = .ok ["batch/c.xml"] ∧
      files filter { root := top } false "gone" = .error .notFound := by
  have hlimited : files filter { root := top } false "." = .ok ["./a.xml", "./batch/c.xml"] :=
    congrArg Except.ok (List.mergeSort_of_pairwise (by decide))
  obtain ⟨-, -, -, hrelisted, hwider⟩ :=
    files_are_the_reachable_ones filter { root := top } isTree_top "."
  obtain ⟨found, hfound, hsublist⟩ := hwider none nofun _ hlimited
  obtain ⟨hdirectory, -⟩ :=
    files_are_the_reachable_ones { filter with maxDepth := none } { root := top } isTree_top "."
  obtain ⟨_, hsame, -, -, hmem⟩ := hdirectory top rfl
  obtain rfl := Except.ok.inj (hfound.symm.trans hsame)
  obtain ⟨-, hfile, -⟩ :=
    files_are_the_reachable_ones filter { root := top } isTree_top "batch/c.xml"
  obtain ⟨-, -, hmissing, -⟩ :=
    files_are_the_reachable_ones filter { root := top } isTree_top "gone"
  refine ⟨hlimited, (hrelisted { root := shuffled } relisted_top rfl).trans hlimited,
    ⟨found, hfound, hsublist, ?_⟩, hfile "".toUTF8 rfl, hmissing .notFound rfl⟩
  have hleads : Leads top ["batch", "deep", "d.xml"] :=
    .inside (.tail _ (.head _)) (.inside (.tail _ (.head _)) (.file (.head _)))
  exact (hmem _).mpr ⟨_, hleads, nofun, rfl, rfl⟩

end Linked

end Discovery

end VideoCatalog
