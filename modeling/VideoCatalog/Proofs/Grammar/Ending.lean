import VideoCatalog.Proofs.Grammar.Reading
import VideoCatalog.Proofs.Xml.Extent

/-!
# When reading comes to an end

A reader follows a grammar up to a depth. Two things are to be said of that depth.

`Read.Extends y x`: wherever `x` comes to an end, `y` does so with the same result. A reader that
goes deeper extends one that does not, so a depth at which reading ends is as good as any greater
one; what is read does not depend on it.

`Read.Ends document n x`: the reader comes to an end wherever at most `n` places of the document
lack an entry, and leaves no more of them without. This is the measure of both readers: an element
is entered before its content is read, so its content is read with one place fewer
(`Read.Ends.declared`).
-/

namespace VideoCatalog.Grammar

open Xml (Cursor Document)

variable {G α β : Type} {document : Document} {c : Cursor} {n : Nat}

namespace Read

/-! ## Deeper readers -/

/-- Wherever the reader `x` comes to an end, `y` does so with the same result. -/
def Extends (y x : Read G α) : Prop :=
  ∀ s result, x.run s = some result → y.run s = some result

namespace Extends

variable {x y : Read G α} {f g : α → Read G β}

theorem refl (x : Read G α) : Extends x x :=
  fun _ _ h => h

theorem tooDeep : Extends y tooDeep := by
  intro s result h
  cases h

theorem bind (h : Extends y x) (hfg : ∀ a, Extends (g a) (f a)) :
    Extends (y >>= g) (x >>= f) := by
  intro s result hrun
  rw [StateT.run_bind] at hrun ⊢
  obtain ⟨⟨a, s'⟩, hfirst, hsecond⟩ := Option.bind_eq_some_iff.mp hrun
  rw [h s _ hfirst]
  exact hfg a s' result hsecond

theorem allOrNone {f g : α → Read G (Option β)} (h : ∀ a, Extends (g a) (f a)) :
    ∀ as : List α, Extends (allOrNone g as) (allOrNone f as)
  | [] => refl _
  | a :: as => by
      refine bind (h a) fun o => ?_
      cases o with
      | none => exact refl _
      | some b => exact bind (allOrNone h as) fun _ => refl _

theorem forEach (h : ∀ a, Extends (g a) (f a)) :
    ∀ as : List α, Extends (forEach g as) (forEach f as)
  | [] => refl _
  | a :: as => bind (h a) fun _ => bind (forEach h as) fun _ => refl _

theorem declared {content content' : Read G (Option DeclaredContent)}
    (h : Extends content' content) (compile : Compiler G) (path : List Nat) (name : String)
    (text : Option String) :
    Extends (declared compile path name text content')
      (declared compile path name text content) := by
  refine bind (refl _) fun known => ?_
  cases known with
  | some index => exact refl _
  | none => exact bind (refl _) fun _ => bind h fun _ => refl _

end Extends

end Read

/-! ## Readers that do not end -/

namespace Read

/-- The reader comes to no end, wherever it starts. -/
def NeverEnds (x : Read G α) : Prop :=
  ∀ s, x.run s = none

namespace NeverEnds

theorem bind {x : Read G α} (h : NeverEnds x) (f : α → Read G β) : NeverEnds (x >>= f) := by
  intro s
  rw [StateT.run_bind, h s]
  rfl

theorem bind_right (x : Read G α) {f : α → Read G β} (h : ∀ a, NeverEnds (f a)) :
    NeverEnds (x >>= f) := by
  intro s
  rw [StateT.run_bind]
  cases hfirst : x.run s with
  | none => rfl
  | some result => exact h result.1 result.2

/-- One member of a list is enough. -/
theorem forEach {f : α → Read G β} {a : α} {as : List α} (ha : a ∈ as) (h : NeverEnds (f a)) :
    NeverEnds (forEach f as) := by
  induction as with
  | nil => cases ha
  | cons b as ih =>
      rcases List.mem_cons.mp ha with rfl | ha
      · exact bind h _
      · exact bind_right _ fun _ => bind (ih ha) _

end NeverEnds

end Read

/-! ## Places without an entry -/

/-- What has been read once the element at a path is entered. -/
def Collected.entered (s : Collected G) (path : List Nat) (name : String) : Collected G :=
  { s with
    declarations := s.declarations ++ [{ name := name, body := .unsupported }]
    known := (path, s.declarations.length) :: s.known }

/-- At most `n` places of the document lack an entry. -/
def Collected.Lacks (s : Collected G) (document : Document) (n : Nat) : Prop :=
  ∃ places : List (List Nat), places.length ≤ n ∧
    ∀ c, document.Holds c → s.known.lookup c.path = none → c.path ∈ places

namespace Collected.Lacks

variable {s : Collected G}

theorem start {root : Xml.Element} (hroot : document.root = some root) :
    ({} : Collected G).Lacks document root.size :=
  ⟨Xml.Element.placesFrom [] root, Nat.le_of_eq (Xml.Element.length_placesFrom [] root),
    fun _ hc _ => hc.path_mem_placesFrom hroot⟩

theorem mono {m : Nat} (h : s.Lacks document m) (hle : m ≤ n) : s.Lacks document n := by
  obtain ⟨places, hlength, hplaces⟩ := h
  exact ⟨places, Nat.le_trans hlength hle, hplaces⟩

theorem of_known_eq {s' : Collected G} (h : s.Lacks document n) (hknown : s'.known = s.known) :
    s'.Lacks document n := by
  unfold Lacks
  rwa [hknown]

/-- An entry for a place that lacks one leaves fewer places without. -/
theorem entered (h : s.Lacks document n) (hc : document.Holds c)
    (hnew : s.known.lookup c.path = none) (name : String) :
    ∃ m < n, (s.entered c.path name).Lacks document m := by
  obtain ⟨places, hlength, hplaces⟩ := h
  have hmem : c.path ∈ places := hplaces c hc hnew
  have herase : (places.erase c.path).length < places.length := by
    rw [List.length_erase_of_mem hmem]
    exact Nat.sub_lt (List.length_pos_of_mem hmem) Nat.one_pos
  refine ⟨(places.erase c.path).length, Nat.lt_of_lt_of_le herase hlength,
    places.erase c.path, Nat.le_refl _, ?_⟩
  intro c' hc' hlacks
  rw [Collected.entered, List.lookup_cons] at hlacks
  split at hlacks
  · cases hlacks
  · next hne =>
    have hpath : c'.path ≠ c.path := by simpa using hne
    exact (List.mem_erase_of_ne hpath).mpr (hplaces c' hc' hlacks)

end Collected.Lacks

namespace Read

section Declared

variable {compile : Compiler G} {path : List Nat} {name : String} {text : Option String}
  {content : Read G (Option DeclaredContent)} {s : Collected G}

/-- What is left to do for the declaration of an element once it is entered. -/
def settled (compile : Compiler G) (index : Nat) (name : String) (text : Option String)
    (content : Read G (Option DeclaredContent)) : Read G (Nat × String) := do
  let found ← content
  let body ← settle compile text found
  setBody index body
  pure (index, name)

theorem run_declared_of_known {index : Nat} (h : s.known.lookup path = some index) :
    (declared compile path name text content).run s = some ((index, name), s) := by
  have hknown : (known? path : Read G _).run s = some (some index, s) := by
    rw [← h]
    rfl
  rw [declared, StateT.run_bind, hknown]
  rfl

theorem run_declared_of_new (h : s.known.lookup path = none) :
    (declared compile path name text content).run s =
      (settled compile s.declarations.length name text content).run (s.entered path name) := by
  have hknown : (known? path : Read G _).run s = some (none, s) := by
    rw [← h]
    rfl
  rw [declared, StateT.run_bind, hknown]
  rfl

end Declared

/-- The reader comes to an end wherever at most `n` places of the document lack an entry, and then
no more of them do. -/
def Ends (document : Document) (n : Nat) (x : Read G α) : Prop :=
  ∀ s : Collected G, s.Lacks document n →
    ∃ a s', x.run s = some (a, s') ∧ s'.Lacks document n

namespace Ends

variable {x : Read G α} {f : α → Read G β}

theorem pure (a : α) : Ends document n (Pure.pure a : Read G α) :=
  fun s hs => ⟨a, s, rfl, hs⟩

theorem bind (hx : Ends document n x) (hf : ∀ a, Ends document n (f a)) :
    Ends document n (x >>= f) := by
  intro s hs
  obtain ⟨a, s', hfirst, hs'⟩ := hx s hs
  obtain ⟨b, s'', hsecond, hs''⟩ := hf a s' hs'
  refine ⟨b, s'', ?_, hs''⟩
  rw [StateT.run_bind, hfirst]
  exact hsecond

/-- A step that leaves the entries as they are. -/
theorem of_step (step : Collected G → α × Collected G)
    (hknown : ∀ s, (step s).2.known = s.known) :
    Ends document n (modifyGet step : Read G α) :=
  fun s hs => ⟨(step s).1, (step s).2, rfl, hs.of_known_eq (hknown s)⟩

theorem enterUndefined (name : String) : Ends document n (enterUndefined name : Read G Nat) :=
  of_step _ fun _ => rfl

theorem setBody (index : Nat) (body : Body G) : Ends document n (setBody index body) :=
  of_step _ fun _ => rfl

theorem settle (compile : Compiler G) (text : Option String) (found : Option DeclaredContent) :
    Ends document n (settle compile text found) := by
  cases found with
  | some content => exact pure _
  | none =>
      cases text with
      | none => exact pure _
      | some text =>
          refine bind (of_step _ fun _ => rfl) fun grammar => ?_
          cases grammar with
          | none => exact pure _
          | some grammar => exact pure _

theorem allOrNone {g : α → Read G (Option β)} {as : List α}
    (h : ∀ a ∈ as, Ends document n (g a)) : Ends document n (allOrNone g as) := by
  induction as with
  | nil => exact pure _
  | cons a as ih =>
      obtain ⟨ha, has⟩ := List.forall_mem_cons.mp h
      refine bind ha fun o => ?_
      cases o with
      | none => exact pure _
      | some b =>
          refine bind (ih has) fun os => ?_
          cases os with
          | none => exact pure _
          | some bs => exact pure _

theorem forEach {g : α → Read G β} {as : List α} (h : ∀ a ∈ as, Ends document n (g a)) :
    Ends document n (forEach g as) := by
  induction as with
  | nil => exact pure _
  | cons a as ih =>
      obtain ⟨ha, has⟩ := List.forall_mem_cons.mp h
      exact bind ha fun _ => bind (ih has) fun _ => pure _

/-- Reading the declaration of an element ends if reading its content ends with fewer places that
lack an entry. -/
theorem declared (hc : document.Holds c) (compile : Compiler G) (name : String)
    (text : Option String) {content : Read G (Option DeclaredContent)}
    (hcontent : ∀ m < n, Ends document m content) :
    Ends document n (declared compile c.path name text content) := by
  intro s hs
  cases hlookup : s.known.lookup c.path with
  | some index => exact ⟨_, s, run_declared_of_known hlookup, hs⟩
  | none =>
      -- from here on the element has its entry, and one place fewer lacks one
      obtain ⟨m, hm, hentered⟩ := hs.entered hc hlookup name
      have hsettled : Ends document m
          (settled compile s.declarations.length name text content) :=
        bind (hcontent m hm) fun found =>
          bind (settle compile text found) fun body => bind (setBody _ body) fun _ => pure _
      obtain ⟨result, s', hrun, hs'⟩ := hsettled _ hentered
      refine ⟨result, s', ?_, hs'.mono (Nat.le_of_lt hm)⟩
      rw [run_declared_of_new hlookup, hrun]

end Ends

end Read

end VideoCatalog.Grammar
