import VideoCatalog.Config.Loading

/-!
# Settings in layers

A layer says of each setting what it sets it to, if it sets it at all (`Layer`). The options of a
command line, the environment and a file of settings are layers, and below them lie the defaults.
Each of the three functions that put one of them above settings does this setting by setting
(`Config.value_above`, `Environment.withEnvironment_cases`, `Config.value_withOptions`), so every
setting comes from the highest layer that sets it (`Config.load_eq_ok_iff`).

The environment is read one variable after the other. What one of them does (`setFrom_cases`) is
carried over a row of them by induction (`foldlM_setFrom_cases`).
-/

namespace VideoCatalog

/-! ## Settings and their values -/

/-- One field of the settings. -/
inductive SettingKey where
  | schema
  | pattern
  | threads
  | failFast
  | timeoutSeconds
  | grammar
  | snapshotPath
  | verbose
  | quiet
  | format
  | extensions
  | includePatterns
  | excludePatterns
  | maxDepth
  deriving DecidableEq

namespace SettingKey

/-- What a setting can be set to. -/
def Value : SettingKey → Type
  | .schema | .pattern | .snapshotPath => Option String
  | .threads | .maxDepth => Option Nat
  | .failFast | .verbose | .quiet => Bool
  | .timeoutSeconds => Nat
  | .grammar => GrammarChoice
  | .format => OutputFormat
  | .extensions | .includePatterns | .excludePatterns => List String

/-- All settings. The variables of the environment are read in this order. -/
def all : List SettingKey :=
  [.schema, .pattern, .threads, .failFast, .timeoutSeconds, .grammar, .snapshotPath, .verbose,
    .quiet, .format, .extensions, .includePatterns, .excludePatterns, .maxDepth]

theorem mem_all (s : SettingKey) : s ∈ all := by
  cases s <;> decide

theorem nodup_all : all.Nodup := by
  decide

end SettingKey

namespace Config

/-- The value of a setting. -/
def value (c : Config) : (s : SettingKey) → s.Value
  | .schema => c.schemas.schema
  | .pattern => c.schemas.pattern
  | .threads => c.validation.threads
  | .failFast => c.validation.failFast
  | .timeoutSeconds => c.validation.timeoutSeconds
  | .grammar => c.validation.grammar
  | .snapshotPath => c.search.snapshotPath
  | .verbose => c.output.verbose
  | .quiet => c.output.quiet
  | .format => c.output.format
  | .extensions => c.files.extensions
  | .includePatterns => c.files.includePatterns
  | .excludePatterns => c.files.excludePatterns
  | .maxDepth => c.files.maxDepth

/-- The settings with these values. -/
def ofValues (values : (s : SettingKey) → s.Value) : Config where
  schemas := { schema := values .schema, pattern := values .pattern }
  validation :=
    { threads := values .threads
      failFast := values .failFast
      grammar := values .grammar
      timeoutSeconds := values .timeoutSeconds }
  search := { snapshotPath := values .snapshotPath }
  output := { format := values .format, verbose := values .verbose, quiet := values .quiet }
  files :=
    { extensions := values .extensions
      includePatterns := values .includePatterns
      excludePatterns := values .excludePatterns
      maxDepth := values .maxDepth }

theorem value_ofValues (values : (s : SettingKey) → s.Value) (s : SettingKey) :
    (ofValues values).value s = values s := by
  cases s <;> rfl

/-- Settings are told apart by their values. -/
theorem eq_of_value_eq {c c' : Config} (h : ∀ s, c.value s = c'.value s) : c = c' :=
  calc
    c = ofValues c.value := rfl
    _ = ofValues c'.value := by rw [funext h]
    _ = c' := rfl

/-- The settings with one of them changed. -/
def put : (s : SettingKey) → s.Value → Config → Config
  | .schema, v, c => { c with schemas := { c.schemas with schema := v } }
  | .pattern, v, c => { c with schemas := { c.schemas with pattern := v } }
  | .threads, v, c => { c with validation := { c.validation with threads := v } }
  | .failFast, v, c => { c with validation := { c.validation with failFast := v } }
  | .timeoutSeconds, v, c => { c with validation := { c.validation with timeoutSeconds := v } }
  | .grammar, v, c => { c with validation := { c.validation with grammar := v } }
  | .snapshotPath, v, c => { c with search := { snapshotPath := v } }
  | .verbose, v, c => { c with output := { c.output with verbose := v } }
  | .quiet, v, c => { c with output := { c.output with quiet := v } }
  | .format, v, c => { c with output := { c.output with format := v } }
  | .extensions, v, c => { c with files := { c.files with extensions := v } }
  | .includePatterns, v, c => { c with files := { c.files with includePatterns := v } }
  | .excludePatterns, v, c => { c with files := { c.files with excludePatterns := v } }
  | .maxDepth, v, c => { c with files := { c.files with maxDepth := v } }

theorem value_put_self (s : SettingKey) (v : s.Value) (c : Config) : (put s v c).value s = v := by
  cases s <;> rfl

theorem value_put_of_ne {s t : SettingKey} (h : t ≠ s) (v : s.Value) (c : Config) :
    (put s v c).value t = c.value t := by
  cases s <;> cases t <;> first | rfl | exact absurd rfl h

end Config

/-! ## Layers -/

/-- What each setting is set to, if it is set. -/
abbrev Layer := (s : SettingKey) → Option s.Value

/-- A list of settings counts as set unless it is empty. -/
def listed (l : List String) : Option (List String) :=
  if l.isEmpty then none else some l

/-- What a file of settings sets. -/
def Config.layer (c : Config) : Layer
  | .schema => c.schemas.schema.map some
  | .pattern => c.schemas.pattern.map some
  | .threads => c.validation.threads.map some
  | .failFast => some c.validation.failFast
  | .timeoutSeconds => some c.validation.timeoutSeconds
  | .grammar => some c.validation.grammar
  | .snapshotPath => c.search.snapshotPath.map some
  | .verbose => some c.output.verbose
  | .quiet => some c.output.quiet
  | .format => some c.output.format
  | .extensions => listed c.files.extensions
  | .includePatterns => listed c.files.includePatterns
  | .excludePatterns => listed c.files.excludePatterns
  | .maxDepth => c.files.maxDepth.map some

/-- What the options of a command line set. The two switches for how much is shown set two settings
each, and the one for less comes last. -/
def Options.layer (o : Options) : Layer
  | .schema => o.schema.map some
  | .pattern => o.pattern.map some
  | .threads => o.threads.map some
  | .failFast => if o.failFast then some true else none
  | .timeoutSeconds => none
  | .grammar => o.grammar
  | .snapshotPath => o.snapshot.map some
  | .verbose => if o.quiet then some false else if o.verbose then some true else none
  | .quiet => if o.quiet then some true else if o.verbose then some false else none
  | .format => o.format
  | .extensions => o.extensionList?
  | .includePatterns => listed o.includePatterns
  | .excludePatterns => listed o.excludePatterns
  | .maxDepth => none

namespace SettingKey

/-- The name of the variable for a setting, without the common beginning, if there is one. -/
def variableName? : SettingKey → Option String
  | .schema => some "XSD"
  | .pattern => some "RNG"
  | .threads => some "THREADS"
  | .failFast => some "FAIL_FAST"
  | .timeoutSeconds => some "TIMEOUT"
  | .grammar => some "GRAMMAR"
  | .snapshotPath => some "SNAPSHOT"
  | .verbose => some "VERBOSE"
  | .quiet => some "QUIET"
  | .format => some "FORMAT"
  | .extensions => some "EXTENSIONS"
  | .includePatterns | .excludePatterns | .maxDepth => none

/-- What the text of a variable sets the setting to. -/
def read : (s : SettingKey) → String → Option s.Value
  | .schema, text | .pattern, text | .snapshotPath, text => some (some text)
  | .threads, text => (Environment.trimmed Text.count? text).map some
  | .failFast, text | .verbose, text | .quiet, text =>
    Environment.trimmed Environment.truth? text
  | .timeoutSeconds, text => Environment.trimmed Text.count? text
  | .grammar, text => Environment.anyCase GrammarChoice.ofLabel? text
  | .format, text => Environment.anyCase OutputFormat.ofLabel? text
  | .extensions, text => some (Text.commaList text)
  | .includePatterns, _ | .excludePatterns, _ | .maxDepth, _ => none

end SettingKey

namespace Environment

/-- The text of the variable for a setting. -/
def text? (env : Environment) (s : SettingKey) : Option String :=
  s.variableName?.bind (fun name => env (nameStart ++ name))

/-- What the environment sets. -/
def layer (env : Environment) : Layer :=
  fun s => (env.text? s).bind s.read

/-- The variable for the setting has a value of the wrong form. -/
def Misreads (env : Environment) (s : SettingKey) : Prop :=
  ∃ text, env.text? s = some text ∧ s.read text = none

end Environment

/-- The value of the highest layer that sets the setting, or else the default. -/
def highest (layers : List Layer) (s : SettingKey) : s.Value :=
  (layers.findSome? (fun l => l s)).getD (Config.value {} s)

theorem highest_cons (l : Layer) (layers : List Layer) (s : SettingKey) :
    highest (l :: layers) s = (l s).getD (highest layers s) := by
  rw [highest, highest, List.findSome?_cons]
  cases l s with
  | none => rfl
  | some v => rfl

/-! ## One layer above others -/

namespace Config

theorem getD_map_some {α : Type} (upper lower : Option α) :
    (upper.map some).getD lower = upper.or lower := by
  cases upper with
  | none => rfl
  | some a => rfl

theorem getD_listed (upper lower : List String) :
    (listed upper).getD lower = overList upper lower := by
  unfold listed overList
  split
  all_goals rfl

theorem value_above (upper lower : Config) (s : SettingKey) :
    (upper.above lower).value s = (upper.layer s).getD (lower.value s) := by
  cases s with
  | schema | pattern | threads | snapshotPath | maxDepth => exact (getD_map_some _ _).symm
  | extensions | includePatterns | excludePatterns => exact (getD_listed _ _).symm
  | failFast | timeoutSeconds | grammar | verbose | quiet | format => rfl

theorem value_withOptions (lower : Config) (o : Options) (s : SettingKey) :
    (lower.withOptions o).value s = (o.layer s).getD (lower.value s) := by
  cases s with
  | schema | pattern | threads | snapshotPath => exact (getD_map_some _ _).symm
  | includePatterns | excludePatterns => exact (getD_listed _ _).symm
  | timeoutSeconds | maxDepth | grammar | format | extensions => rfl
  | failFast =>
      show (o.failFast || lower.validation.failFast) =
        (if o.failFast then some true else none).getD lower.validation.failFast
      cases o.failFast <;> rfl
  | verbose =>
      show (if o.quiet then false else o.verbose || lower.output.verbose) =
        (if o.quiet then some false else if o.verbose then some true else none).getD
          lower.output.verbose
      cases o.quiet <;> cases o.verbose <;> rfl
  | quiet =>
      show (if o.quiet then true else if o.verbose then false else lower.output.quiet) =
        (if o.quiet then some true else if o.verbose then some false else none).getD
          lower.output.quiet
      cases o.quiet <;> cases o.verbose <;> rfl

end Config

/-! ## The environment -/

namespace Environment

/-- The settings after the variable for one of them. -/
def setFrom (env : Environment) (c : Config) (s : SettingKey) : Except ConfigError Config :=
  match s.variableName? with
  | some name => apply env name s.read (Config.put s) c
  | none => .ok c

theorem apply_map {α β : Type} (env : Environment) (name : String) (read : String → Option α)
    (wrap : α → β) (put : β → Config → Config) (c : Config) :
    apply env name (fun text => (read text).map wrap) put c =
      apply env name read (fun a => put (wrap a)) c := by
  unfold apply
  cases env (nameStart ++ name) with
  | none => rfl
  | some text =>
      dsimp only
      cases read text with
      | none => rfl
      | some a => rfl

/-- The environment is read one variable after the other. -/
theorem withEnvironment_eq (env : Environment) (c : Config) :
    c.withEnvironment env = SettingKey.all.foldlM env.setFrom c := by
  have hthreads : ∀ c, env.setFrom c .threads =
      apply env "THREADS" (trimmed Text.count?)
        (fun v c => { c with validation := { c.validation with threads := some v } }) c :=
    apply_map env "THREADS" (trimmed Text.count?) some (Config.put .threads)
  simp only [SettingKey.all, List.foldlM_cons, List.foldlM_nil, hthreads]
  -- Behind the last variable come the settings without one, which change nothing.
  have hpass : ∀ c (next : Config → Except ConfigError Config), (.ok c >>= next) = next c :=
    fun _ _ => rfl
  simp only [setFrom, SettingKey.variableName?, hpass, bind_pure]
  rfl

/-- A variable is refused, or its setting comes from the environment if it is set there. -/
theorem setFrom_cases (env : Environment) (c : Config) (s : SettingKey) :
    (env.Misreads s ∧ ∃ e, env.setFrom c s = .error e) ∨
      (¬ env.Misreads s ∧ ∃ c', env.setFrom c s = .ok c' ∧
        c'.value s = (env.layer s).getD (c.value s) ∧ ∀ t, t ≠ s → c'.value t = c.value t) := by
  unfold setFrom Misreads layer text?
  cases s.variableName? with
  | none => exact .inr ⟨nofun, c, rfl, rfl, fun _ _ => rfl⟩
  | some name =>
      dsimp only [Option.bind_some, apply]
      cases env (nameStart ++ name) with
      | none => exact .inr ⟨nofun, c, rfl, rfl, fun _ _ => rfl⟩
      | some text =>
          dsimp only [Option.bind_some]
          cases hread : s.read text with
          | none => exact .inl ⟨⟨text, rfl, hread⟩, _, rfl⟩
          | some v =>
              refine .inr ⟨?_, _, rfl, Config.value_put_self s v c,
                fun t ht => Config.value_put_of_ne ht v c⟩
              rintro ⟨_, ⟨⟩, hnone⟩
              cases hread.symm.trans hnone

/-- The same of a row of variables. -/
theorem foldlM_setFrom_cases (env : Environment) (c : Config) {ss : List SettingKey}
    (hdistinct : ss.Nodup) :
    ((∃ s ∈ ss, env.Misreads s) ∧ ∃ e, ss.foldlM env.setFrom c = .error e) ∨
      ((∀ s ∈ ss, ¬ env.Misreads s) ∧ ∃ c', ss.foldlM env.setFrom c = .ok c' ∧
        (∀ s ∈ ss, c'.value s = (env.layer s).getD (c.value s)) ∧
          ∀ s, s ∉ ss → c'.value s = c.value s) := by
  induction ss generalizing c with
  | nil => exact .inr ⟨nofun, c, rfl, nofun, fun _ _ => rfl⟩
  | cons s ss ih =>
      obtain ⟨hnew, hdistinct⟩ := List.nodup_cons.mp hdistinct
      rw [List.foldlM_cons]
      rcases setFrom_cases env c s with ⟨hmisreads, e, he⟩ | ⟨hreads, c', hc', hself, hothers⟩
      · rw [he]
        exact .inl ⟨⟨s, List.mem_cons_self, hmisreads⟩, e, rfl⟩
      · rw [hc']
        rcases ih c' hdistinct with ⟨⟨t, ht, hmisreads⟩, e, he⟩ | ⟨hall, c'', hc'', hset, hrest⟩
        · exact .inl ⟨⟨t, List.mem_cons_of_mem _ ht, hmisreads⟩, e, he⟩
        · refine .inr ⟨List.forall_mem_cons.mpr ⟨hreads, hall⟩, c'', hc'', ?_, fun t ht => ?_⟩
          · refine List.forall_mem_cons.mpr ⟨?_, fun t ht => ?_⟩
            · rw [hrest s hnew, hself]
            · have hne : t ≠ s := fun hsame => hnew (hsame ▸ ht)
              rw [hset t ht, hothers t hne]
          · obtain ⟨hne, ht⟩ := List.ne_and_not_mem_of_not_mem_cons ht
            rw [hrest t ht, hothers t hne]

/-- The environment is refused, or it is above the settings. -/
theorem withEnvironment_cases (env : Environment) (c : Config) :
    ((∃ s, env.Misreads s) ∧ ∃ e, c.withEnvironment env = .error e) ∨
      ((∀ s, ¬ env.Misreads s) ∧ ∃ c', c.withEnvironment env = .ok c' ∧
        ∀ s, c'.value s = (env.layer s).getD (c.value s)) := by
  rw [withEnvironment_eq]
  rcases foldlM_setFrom_cases env c SettingKey.nodup_all with
    ⟨⟨s, -, hmisreads⟩, herror⟩ | ⟨hall, c', hc', hset, -⟩
  · exact .inl ⟨⟨s, hmisreads⟩, herror⟩
  · exact .inr ⟨fun s => hall s s.mem_all, c', hc', fun s => hset s s.mem_all⟩

end Environment

/-! ## The settings of a run -/

namespace Config

open Files (Volume)

section

variable {files : Volume} {userDirectory : Option RawText} {env : Environment} {o : Options}

/-- The settings that the file of settings holds, or that there is no such file. -/
def Finds (files : Volume) (userDirectory : Option RawText) (o : Options) : Option Config → Prop
  | some c => ∃ path, file? files userDirectory o = some path ∧ ofFile files path = .ok c
  | none => file? files userDirectory o = none

/-- The layers above the defaults, from the highest one down. -/
def layers (o : Options) (env : Environment) (file : Option Config) : List Layer :=
  o.layer :: env.layer :: (file.map layer).toList

/-- The settings with the layers on top of each other. -/
def merged (o : Options) (env : Environment) (file : Option Config) : Config :=
  ofValues (highest (layers o env file))

/-- No other file of settings is found. -/
theorem Finds.unique {file file' : Option Config} (h : Finds files userDirectory o file)
    (h' : Finds files userDirectory o file') : file = file' := by
  cases file with
  | none =>
      cases file' with
      | none => rfl
      | some c' =>
          obtain ⟨path, hpath, -⟩ := h'
          cases hpath.symm.trans h
  | some c =>
      obtain ⟨path, hpath, hread⟩ := h
      cases file' with
      | none => cases hpath.symm.trans h'
      | some c' =>
          obtain ⟨path', hpath', hread'⟩ := h'
          obtain rfl := Option.some.inj (hpath.symm.trans hpath')
          exact congrArg some (Except.ok.inj (hread.symm.trans hread'))

theorem unreadable_or_finds (files : Volume) (userDirectory : Option RawText) (o : Options) :
    (∃ path e, file? files userDirectory o = some path ∧ ofFile files path = .error e) ∨
      ∃ file, Finds files userDirectory o file := by
  cases hpath : file? files userDirectory o with
  | none => exact .inr ⟨none, hpath⟩
  | some path =>
      cases hread : ofFile files path with
      | error e => exact .inl ⟨path, e, rfl, hread⟩
      | ok c => exact .inr ⟨some c, path, hpath, hread⟩

theorem load_of_unreadable {path : RawText} {e : ConfigError}
    (hpath : file? files userDirectory o = some path) (hread : ofFile files path = .error e) :
    load files userDirectory env o = .error e := by
  rw [load, fromFiles, hpath]
  dsimp only
  rw [hread]
  rfl

/-- A file of settings is above the defaults. -/
theorem fromFiles_of_finds {file : Option Config} (h : Finds files userDirectory o file) :
    ∃ base, fromFiles files userDirectory o = .ok base ∧
      ∀ s, base.value s = highest (file.map layer).toList s := by
  cases file with
  | none => exact ⟨{}, by rw [fromFiles, show file? files userDirectory o = none from h],
      fun _ => rfl⟩
  | some c =>
      obtain ⟨path, hpath, hread⟩ := h
      refine ⟨c.above {}, ?_, fun s => ?_⟩
      · rw [fromFiles, hpath]
        dsimp only
        rw [hread]
        rfl
      · rw [value_above, Option.map_some, Option.toList_some, highest_cons]
        rfl

/-- Given the file of settings, the environment is refused, or the merged settings are checked. -/
theorem load_of_finds (env : Environment) {file : Option Config}
    (h : Finds files userDirectory o file) :
    ((∃ s, env.Misreads s) ∧ ∃ e, load files userDirectory env o = .error e) ∨
      ((∀ s, ¬ env.Misreads s) ∧ load files userDirectory env o =
        (merged o env file).validate.map (fun _ => merged o env file)) := by
  obtain ⟨base, hbase, hvalue⟩ := fromFiles_of_finds h
  rw [load, hbase]
  show ((_ ∧ ∃ e, (base.withEnvironment env >>= _) = _) ∨
    (_ ∧ (base.withEnvironment env >>= _) = _))
  rcases env.withEnvironment_cases base with ⟨hmisreads, e, he⟩ | ⟨hreads, upper, hupper, hset⟩
  · rw [he]
    exact .inl ⟨hmisreads, e, rfl⟩
  · have hmerged : upper.withOptions o = merged o env file := by
      refine eq_of_value_eq fun s => ?_
      rw [value_withOptions, hset, hvalue, merged, value_ofValues, layers, highest_cons,
        highest_cons]
    rw [hupper, ← hmerged]
    refine .inr ⟨hreads, ?_⟩
    show ((upper.withOptions o).validate >>= _) = _
    cases (upper.withOptions o).validate with
    | error e => rfl
    | ok _ => rfl

theorem load_eq_ok_iff {c : Config} : load files userDirectory env o = .ok c ↔
    ∃ file, Finds files userDirectory o file ∧ (∀ s, ¬ env.Misreads s) ∧
      (∀ s, c.value s = highest (layers o env file) s) ∧ c.validate = .ok () := by
  constructor
  · intro hload
    rcases unreadable_or_finds files userDirectory o with ⟨path, e, hpath, hread⟩ | ⟨file, hfinds⟩
    · cases (load_of_unreadable hpath hread).symm.trans hload
    rcases load_of_finds env hfinds with ⟨-, e, he⟩ | ⟨hreads, hmerged⟩
    · cases he.symm.trans hload
    rw [hload] at hmerged
    cases hvalid : (merged o env file).validate with
    | error e =>
        rw [hvalid] at hmerged
        cases hmerged
    | ok _ =>
        rw [hvalid] at hmerged
        obtain rfl := Except.ok.inj hmerged
        exact ⟨file, hfinds, hreads, value_ofValues _, hvalid⟩
  · rintro ⟨file, hfinds, hreads, hvalue, hvalid⟩
    have hmerged : c = merged o env file :=
      eq_of_value_eq fun s => (hvalue s).trans (value_ofValues _ s).symm
    rcases load_of_finds env hfinds with ⟨⟨s, hmisreads⟩, -⟩ | ⟨-, hload⟩
    · exact absurd hmisreads (hreads s)
    · rw [hload, ← hmerged, hvalid]
      rfl

theorem exists_load_eq_error_iff : (∃ e, load files userDirectory env o = .error e) ↔
    (∃ path e, file? files userDirectory o = some path ∧ ofFile files path = .error e) ∨
      (∃ s, env.Misreads s) ∨
      ∃ file e, Finds files userDirectory o file ∧ (merged o env file).validate = .error e := by
  constructor
  · rintro ⟨e, hload⟩
    rcases unreadable_or_finds files userDirectory o with hunreadable | ⟨file, hfinds⟩
    · exact .inl hunreadable
    rcases load_of_finds env hfinds with ⟨hmisreads, -⟩ | ⟨-, hmerged⟩
    · exact .inr (.inl hmisreads)
    rw [hload] at hmerged
    cases hvalid : (merged o env file).validate with
    | error e => exact .inr (.inr ⟨file, e, hfinds, hvalid⟩)
    | ok _ =>
        rw [hvalid] at hmerged
        cases hmerged
  · rintro (⟨path, e, hpath, hread⟩ | ⟨s, hmisreads⟩ | ⟨file, e, hfinds, hvalid⟩)
    · exact ⟨e, load_of_unreadable hpath hread⟩
    · rcases unreadable_or_finds files userDirectory o with
        ⟨path, e, hpath, hread⟩ | ⟨file, hfinds⟩
      · exact ⟨e, load_of_unreadable hpath hread⟩
      · rcases load_of_finds env hfinds with ⟨-, herror⟩ | ⟨hreads, -⟩
        · exact herror
        · exact absurd hmisreads (hreads s)
    · rcases load_of_finds env hfinds with ⟨-, herror⟩ | ⟨-, hload⟩
      · exact herror
      · exact ⟨e, by rw [hload, hvalid]; rfl⟩

end

/-- Settings are had exactly if the file of settings can be read, no variable has a value of the
wrong form and the merged settings make sense, and then each of them has the value of the highest
layer that sets it, whatever the layers below say. -/
theorem load_takes_highest_layers (files : Volume) (userDirectory : Option RawText)
    (env : Environment) (o : Options) :
    (∀ c, load files userDirectory env o = .ok c ↔
      ∃ file, Finds files userDirectory o file ∧ (∀ s, ¬ env.Misreads s) ∧
        (∀ s, c.value s = highest (layers o env file) s) ∧ c.validate = .ok ()) ∧
    ((∃ e, load files userDirectory env o = .error e) ↔
      (∃ path e, file? files userDirectory o = some path ∧ ofFile files path = .error e) ∨
        (∃ s, env.Misreads s) ∨
        ∃ file e, Finds files userDirectory o file ∧ (merged o env file).validate = .error e) ∧
    (∀ (files' : Volume) (userDirectory' : Option RawText) (env' : Environment) (o' : Options)
        (c c' : Config), load files userDirectory env o = .ok c →
      load files' userDirectory' env' o' = .ok c' → ∀ s, o'.layer s = o.layer s →
        ((o.layer s).isSome = true → c'.value s = c.value s) ∧
        (env'.layer s = env.layer s → (env.layer s).isSome = true →
          c'.value s = c.value s)) := by
  refine ⟨fun c => load_eq_ok_iff, exists_load_eq_error_iff, ?_⟩
  intro files' userDirectory' env' o' c c' hload hload' s hoptions
  obtain ⟨file, -, -, hvalue, -⟩ := load_eq_ok_iff.mp hload
  obtain ⟨file', -, -, hvalue', -⟩ := load_eq_ok_iff.mp hload'
  simp only [hvalue, hvalue', layers, highest_cons, hoptions]
  refine ⟨fun hset => ?_, fun henv hset => ?_⟩
  · obtain ⟨v, hv⟩ := Option.isSome_iff_exists.mp hset
    rw [hv]
    rfl
  · obtain ⟨v, hv⟩ := Option.isSome_iff_exists.mp hset
    rw [henv, hv]
    rfl

/-!
## Settings from everywhere

A file of settings asks for four threads, for little to be shown and for stopping at the first
document that is not accepted. The environment sets the threads and the time for a document, and the
options set the threads and that much is shown.
-/

namespace Layered

def files : Volume where
  root :=
    [("metadata-verify.json", .file
      ("\x7b\"validation\":\x7b\"threads\":4,\"fail_fast\":true\x7d," ++
        "\"output\":\x7b\"quiet\":true\x7d\x7d").toUTF8)]

/-- The settings in the file. -/
def fileConfig : Config where
  validation := { threads := some 4, failFast := true }
  output := { quiet := true }

/-- The environment with this text for the threads. -/
def envOf (threads : String) : Environment := fun name =>
  if name = "METADATA_VERIFY_THREADS" then some threads
  else if name = "METADATA_VERIFY_TIMEOUT" then some "60"
  else none

def options : Options where
  threads := some 16
  verbose := true

/-- The settings without the file. -/
def bareConfig : Config where
  validation := { threads := some 16, timeoutSeconds := 60 }
  output := { verbose := true }

def config : Config :=
  { bareConfig with validation := { bareConfig.validation with failFast := true } }

theorem finds_fileConfig : Finds files none options (some fileConfig) := by
  refine ⟨"metadata-verify.json", ?_, rfl⟩
  rfl

/-- The options win over the environment and this one over the file, which decides whether to stop;
without the file only that is different. A variable that cannot be read is refused even where an
option wins over it. -/
theorem load_takes_highest_layers_layered :
    load files none (envOf " 8 ") options = .ok config ∧
      Finds files none options (some fileConfig) ∧
      (∀ s, config.value s = highest (layers options (envOf " 8 ") (some fileConfig)) s) ∧
      config.value .failFast = fileConfig.value .failFast ∧
      (∃ e, load files none (envOf "many") options = .error e) ∧
      ∃ c, load {} none (envOf "12") options = .ok c ∧ c.value .threads = config.value .threads ∧
        c.value .timeoutSeconds = config.value .timeoutSeconds ∧
        c.value .failFast ≠ config.value .failFast := by
  have hload : load files none (envOf " 8 ") options = .ok config := by
    obtain ⟨path, hpath, hread⟩ := finds_fileConfig
    rw [load, fromFiles, hpath]
    dsimp only
    rw [hread]
    rfl
  have hload' : load {} none (envOf "12") options = .ok bareConfig := by
    have hnone : file? {} none options = none := rfl
    rw [load, fromFiles, hnone]
    rfl
  obtain ⟨hok, -, hlower⟩ := load_takes_highest_layers files none (envOf " 8 ") options
  obtain ⟨-, herror, -⟩ := load_takes_highest_layers files none (envOf "many") options
  obtain ⟨file, hfinds, -, hvalue, -⟩ := (hok config).mp hload
  obtain rfl := hfinds.unique finds_fileConfig
  refine ⟨hload, hfinds, hvalue, hvalue .failFast,
    herror.mpr (.inr (.inl ⟨.threads, "many", rfl, rfl⟩)), bareConfig, hload', ?_, ?_, nofun⟩
  · exact (hlower {} none (envOf "12") options config bareConfig hload hload' .threads rfl).1 rfl
  · exact (hlower {} none (envOf "12") options config bareConfig hload hload' .timeoutSeconds rfl).2
      rfl rfl

end Layered

end Config

end VideoCatalog
