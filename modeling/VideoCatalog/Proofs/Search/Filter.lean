import VideoCatalog.Proofs.Search.Entries

/-!
# Search is filtering

`Query.Yields step q a q'` says that a step of a query goes through and what it leaves behind. The
steps of a search bind the namespace of the catalogue, the two tables and the folded term, and
evaluate one expression, the same for every term (`select_yields`).

So over an engine that does not run short, that finds the tree of the snapshot again and that
evaluates the expression as XPath has it (`Backend.Serves`), a search finds the records that match,
as they are stored and in their order, and it cannot fail (`run_finds`).
-/

namespace VideoCatalog

open Xml (Cursor Document Element)

variable {G : Type}

/-! ## Steps of a query -/

theorem withoutNul_of_not_mem {s : String} (h : Char.ofNat 0 ∉ s.toList) :
    withoutNul s = .ok () := by
  rw [withoutNul, if_neg]
  simpa using h

namespace Query

/-- The step goes through from one query with a value, and leaves another behind. -/
def Yields {α : Type} (step : QueryStep α) (q : Query) (a : α) (q' : Query) : Prop :=
  step.run.run q = (.ok a, q')

theorem Yields.bind {α β : Type} {step : QueryStep α} {next : α → QueryStep β} {q q' q'' : Query}
    {a : α} {c : β} (h : Yields step q a q') (hnext : Yields (next a) q' c q'') :
    Yields (step >>= next) q c q'' := by
  unfold Yields at h hnext ⊢
  rw [ExceptT.run_bind, StateT.run_bind, h]
  exact hnext

theorem bindNamespace_yields {b : Backend G} (qualifier uri : String) (q : Query)
    (hqualifier : Char.ofNat 0 ∉ qualifier.toList) (huri : Char.ofNat 0 ∉ uri.toList)
    (h : b.bindsNamespace qualifier uri = true) :
    Yields (bindNamespace b qualifier uri) q ()
      { q with
        calls := q.calls ++ [.bindNamespace qualifier uri],
        bindings := { q.bindings with
          namespaces := q.bindings.namespaces ++ [(qualifier, uri)] } } := by
  rw [bindNamespace, withoutNul_of_not_mem hqualifier, withoutNul_of_not_mem huri, if_pos h]
  rfl

theorem bindVariable_yields {b : Backend G} (name value : String) (q : Query)
    (hname : Char.ofNat 0 ∉ name.toList) (hvalue : Char.ofNat 0 ∉ value.toList)
    (h : b.bindsVariable name value = true) :
    Yields (bindVariable b name value) q ()
      { q with
        calls := q.calls ++ [.bindVariable name value],
        bindings := { q.bindings with values := q.bindings.values ++ [(name, value)] } } := by
  rw [bindVariable, withoutNul_of_not_mem hname, withoutNul_of_not_mem hvalue, if_pos h]
  rfl

theorem select_yields {b : Backend G} {expression : String} {q : Query} {selected : List QueryNode}
    (hexpression : Char.ofNat 0 ∉ expression.toList)
    (h : b.evaluate q.document q.bindings expression = .nodes selected) :
    Yields (select b expression) q (selected.filterMap (elementOf? q.document))
      { q with calls := q.calls ++ [.evaluate expression] } := by
  have hnote : Yields (note (.evaluate expression)) q ()
      { q with calls := q.calls ++ [.evaluate expression] } := rfl
  have hget : ∀ p : Query, Yields (get : QueryStep Query) p p p := fun _ => rfl
  have hchecked : Yields (ExceptT.mk (pure (withoutNul expression)) : QueryStep Unit) q () q := by
    rw [withoutNul_of_not_mem hexpression]
    rfl
  refine hchecked.bind (hnote.bind ((hget _).bind ?_))
  simp only [h]
  rfl

end Query

/-- What a search takes for granted: the engine does not run short, it finds the tree of the
snapshot again, and it evaluates the expression as XPath has it. -/
structure Backend.Serves (b : Backend G) (collection : List Record) : Prop where
  opens : ∀ d, b.opensQuery d = true
  bindsNamespace : b.bindsNamespace Search.qualifier videoNamespace = true
  bindsVariable : ∀ name value, b.bindsVariable name value = true
  reads : b.Reads (Video.snapshot collection)
  evaluates : b.Evaluates

/-- What an engine does for one search: it parses the snapshot as this document, takes all that is
bound, and selects these nodes. -/
structure Backend.Selects (b : Backend G) (collection : List Record) (term : String) (d : Document)
    (nodes : List QueryNode) : Prop where
  parses : b.document (Video.snapshot collection) = .ok d
  opens : b.opensQuery d = true
  bindsNamespace : b.bindsNamespace Search.qualifier videoNamespace = true
  bindsVariables : ∀ v ∈ (Search.bindings (Text.foldCase term)).values,
    b.bindsVariable v.1 v.2 = true
  evaluates : b.evaluate d (Search.bindings (Text.foldCase term)) Search.expression = .nodes nodes

namespace Search

/-! ## One search -/

/-- The calls made for a folded term. -/
def callsFor (term : String) : List QueryCall :=
  [.bindNamespace qualifier videoNamespace, .bindVariable "upper" Text.caseFolding.upper,
    .bindVariable "lower" Text.caseFolding.lower, .bindVariable "term" term, .evaluate expression]

theorem nul_not_mem_expression : Char.ofNat 0 ∉ expression.toList := by
  decide +kernel

theorem select_yields {b : Backend G} {collection : List Record} {d : Document} {term : String}
    {nodes : List QueryNode} (h : b.Selects collection term d nodes)
    (hterm : Char.ofNat 0 ∉ (Text.foldCase term).toList) :
    Query.Yields (select b (Text.foldCase term)) { document := d }
      (nodes.filterMap (Query.elementOf? d))
      { document := d, bindings := bindings (Text.foldCase term),
        calls := callsFor (Text.foldCase term) } := by
  obtain ⟨hupper, hlower, hbound, -⟩ := by
    simpa only [bindings, List.forall_mem_cons] using h.bindsVariables
  refine (Query.bindNamespace_yields qualifier videoNamespace _ (by decide) (by decide)
    h.bindsNamespace).bind ?_
  refine (Query.bindVariable_yields "upper" _ _ (by decide) Text.nul_not_mem_upper hupper).bind ?_
  refine (Query.bindVariable_yields "lower" _ _ (by decide) Text.nul_not_mem_lower hlower).bind ?_
  refine (Query.bindVariable_yields "term" _ _ (by decide) hterm hbound).bind ?_
  exact Query.select_yields nul_not_mem_expression h.evaluates

/-- What is selected in a document with a root is read back. -/
theorem inSnapshot_of_selects {b : Backend G} {collection : List Record} {d : Document}
    {root : Element} {term : String} {nodes : List QueryNode}
    (h : b.Selects collection term d nodes) (hroot : d.root = some root)
    (hterm : Char.ofNat 0 ∉ term.toList) :
    inSnapshot b collection term (Video.snapshot collection) =
      (readBackAll collection (nodes.filterMap (Query.elementOf? d)),
        callsFor (Text.foldCase term)) := by
  have hfolded : Char.ofNat 0 ∉ (Text.foldCase term).toList := fun hmem =>
    hterm ((Text.nul_mem_foldCase term).mp hmem)
  have hyields := select_yields h hfolded
  rw [Query.Yields] at hyields
  have hstart : Query.start b d = .ok { document := d } := if_pos h.opens
  simp only [inSnapshot, h.parses, hstart, hyields, hroot, Option.isNone_some, Bool.false_eq_true,
    if_false]

/-- No text that a document carries holds a NUL, so a term with one is found nowhere. -/
theorem not_matches_of_nul {term : String} (h : Char.ofNat 0 ∈ term.toList) (r : Record) :
    ¬Matches term r := by
  have hholds : ∀ text, ¬Holds term text := by
    intro text hinfix
    have hfolded : Char.ofNat 0 ∈ (Text.foldCase (Xml.clean text)).toList :=
      hinfix.subset ((Text.nul_mem_foldCase term).mpr h)
    have hclean := (Text.nul_mem_foldCase (Xml.clean text)).mp hfolded
    rw [Xml.toList_clean] at hclean
    obtain ⟨c, -, hc⟩ := List.mem_map.mp hclean
    exact absurd (hc ▸ Xml.isXmlChar_cleanChar c) (by decide)
  rintro (h | h)
  · exact hholds _ h
  · exact hholds _ h

/-- The nodes of the entries that are selected are found in the document again. -/
theorem filterMap_elementOf? {d : Document} {root : Element} (h : d.root = some root)
    (term : String) :
    ((selectedEntries term root).map (fun c => QueryNode.element c.path)).filterMap
      (Query.elementOf? d) = selectedEntries term root := by
  have hfound : ∀ c ∈ selectedEntries term root, Query.elementOf? d (.element c.path) = some c :=
    fun c hc => (Document.holds_root h).child (List.mem_filter.mp hc).1
  rw [List.filterMap_map]
  exact (List.filterMap_congr hfound).trans List.filterMap_some

theorem inSnapshot_eq {b : Backend G} {collection : List Record} (h : b.Serves collection)
    {term : String} (hterm : Char.ofNat 0 ∉ term.toList) :
    inSnapshot b collection term (Video.snapshot collection) =
      (.ok (collection.filter (fun r => Matches term r)), callsFor (Text.foldCase term)) := by
  obtain ⟨d, root, hdocument, hroot, hname, hchildren⟩ := Video.shows_snapshot h.reads
  have hentries : List.Forall₂ (IsEntry term) collection root.children :=
    hchildren.imp fun r e he => isEntry_of_shows he term
  have hselected := h.evaluates d root (Text.foldCase term) _ hroot
    (nodes?_of_entries hroot hname hentries)
  rw [text_query] at hselected
  have hselects : b.Selects collection term d
      ((selectedEntries term root).map (fun c => .element c.path)) :=
    ⟨hdocument, h.opens d, h.bindsNamespace, fun _ _ => h.bindsVariable _ _, hselected⟩
  rw [inSnapshot_of_selects hselects hroot hterm, filterMap_elementOf? hroot,
    readBackAll_entries hentries]

/-- **Search is filtering**: the records found are those that match, as they are stored and in their
order. The engine is asked nothing if there is nothing to search or the term holds a NUL; else the
same expression over the same snapshot for every term, which is only ever bound to a variable. -/
theorem run_finds {b : Backend G} {collection : List Record} (h : b.Serves collection)
    (term : String) :
    (run b collection term).found = .ok (collection.filter (fun r => Matches term r)) ∧
    (collection = [] ∨ Char.ofNat 0 ∈ term.toList → (run b collection term).calls = []) ∧
    (collection ≠ [] → Char.ofNat 0 ∉ term.toList →
      (run b collection term).snapshot = some (Video.snapshot collection) ∧
      (run b collection term).calls =
        [.bindNamespace qualifier videoNamespace, .bindVariable "upper" Text.caseFolding.upper,
          .bindVariable "lower" Text.caseFolding.lower, .bindVariable "term" (Text.foldCase term),
          .evaluate expression]) := by
  by_cases hidle : collection = [] ∨ Char.ofNat 0 ∈ term.toList
  · have hrun : run b collection term = { found := .ok [] } := by
      rw [run, if_pos]
      simpa using hidle
    have hnone : collection.filter (fun r => Matches term r) = [] := by
      rcases hidle with rfl | hnul
      · rfl
      · exact List.filter_eq_nil_iff.mpr fun r _ => by simpa using not_matches_of_nul hnul r
    rw [hrun, hnone]
    exact ⟨rfl, fun _ => rfl, fun hne hnul => absurd hidle (not_or.mpr ⟨hne, hnul⟩)⟩
  · obtain ⟨hne, hnul⟩ := not_or.mp hidle
    have hrun : run b collection term =
        { found := .ok (collection.filter (fun r => Matches term r)),
          calls := callsFor (Text.foldCase term),
          snapshot := some (Video.snapshot collection) } := by
      have hasked : (collection.isEmpty || term.toList.contains (Char.ofNat 0)) = false := by
        simpa using ⟨hne, hnul⟩
      simp only [run, hasked, inSnapshot_eq h hnul, Bool.false_eq_true, if_false]
    rw [hrun]
    exact ⟨rfl, fun hidle' => absurd hidle' hidle, fun _ _ => ⟨rfl, rfl⟩⟩

end Search

/-! ## The structural engine -/

theorem Structural.serves {collection : List Record}
    (hsize : (Video.snapshot collection).utf8ByteSize ≤ Backend.sizeLimit) :
    backend.Serves collection where
  opens := fun _ => rfl
  bindsNamespace := rfl
  bindsVariable := fun _ _ => rfl
  reads := reads hsize
  evaluates := evaluates

namespace Search.Mixed

/-- It differs from the term in case, and holds markup. -/
def first : Record :=
  { id := 1, title := "\u00c4rger & <b>" }

/-- A document cannot carry all of it. -/
def second : Record :=
  { id := 2, title := "a", author := "B\u00c4R\u0000" }

def third : Record :=
  { id := 3, title := "b", author := "a" }

theorem run_finds_mixed :
    (run Structural.backend [first, second, third] "\u00e4R").found = .ok [first, second] ∧
    (run Structural.backend [first, second, third] "\u00e4R").calls =
      [.bindNamespace "t" "urn:tiktok", .bindVariable "upper" Text.caseFolding.upper,
        .bindVariable "lower" Text.caseFolding.lower, .bindVariable "term" "\u00e4r",
        .evaluate expression] ∧
    (run Structural.backend [first, second, third] "\u0000").found = .ok [] ∧
    (run Structural.backend [first, second, third] "\u0000").calls = [] := by
  have hserves : Structural.backend.Serves [first, second, third] :=
    Structural.serves (by decide +kernel)
  obtain ⟨hfound, -, hasked⟩ := run_finds hserves "\u00e4R"
  obtain ⟨hnul, hidle, -⟩ := run_finds hserves "\u0000"
  have hfilter : [first, second, third].filter (fun r => Matches "\u00e4R" r) =
      [first, second] := by
    simp only [Matches, holds_iff]
    decide +kernel
  have hnone : [first, second, third].filter (fun r => Matches "\u0000" r) = [] := by
    simp only [Matches, holds_iff]
    decide +kernel
  have hfolded : Text.foldCase "\u00e4R" = "\u00e4r" := by
    rw [Text.foldCase, Text.CaseFolding.fold, funext Text.foldChar_eq]
    decide +kernel
  obtain ⟨-, hcalls⟩ := hasked (List.cons_ne_nil _ _) (by decide)
  rw [hfilter] at hfound
  rw [hnone] at hnul
  rw [hfolded] at hcalls
  exact ⟨hfound, hcalls, hnul, hidle (.inr (by decide))⟩

end Search.Mixed

end VideoCatalog
