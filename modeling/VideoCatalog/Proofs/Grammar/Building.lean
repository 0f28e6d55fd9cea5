import VideoCatalog.Proofs.Grammar.Ending

/-!
# What is built when reading comes to an end

A declaration is entered with a provisional body, positions are handed out while its content is
still being read, and a content that comes to nothing leaves behind what was entered for it.
`Built` is what holds all the same at every moment, with the declarations still to be settled and
the elements whose standalone grammars were compiled as its ghosts:

* every element has one declaration at most (`once`), and a declaration without an element stands
  for a reference to nothing (`undefined`);
* the body of a declaration is the one its element is to have (`Dialect.IsBody`), unless it is still
  to be settled (`settled`);
* the particles of a settled content refer to declarations with their names (`targets`);
* the compiler was called for elements that are settled, and once for each (`asked`, `askers`).

`Read.Builds` is the triple for a reader at one state of the collection, for what a reader returns
is a position in what has been collected up to then. `Collected.Precedes` says what cannot change
about that any more: declarations keep their names, and entries stay.

What the elements of a grammar say is a parameter again (`Dialect`).
-/

namespace VideoCatalog.Grammar

open Xml (Cursor Document)

variable {G α β : Type} {document : Document} {compile : Compiler G}

/-- What a grammar language says about the elements of a grammar document. -/
structure Dialect where
  /-- How the declaration of an element is named. -/
  nameOf : Cursor → String
  /-- The element is element-only. -/
  IsElementOnly : Cursor → Prop
  /-- The content says what the element says. -/
  Says : Cursor → DeclaredContent → Prop
  /-- The standalone grammar of an element, if it has one. -/
  textOf? : Cursor → Option String
  /-- Something refers to this name, and nothing bears it. -/
  IsUndefined : String → Prop

/-- How the elements of a declaration are to be checked, where the standalone grammars of `askers`
were given to the compiler in this order. -/
inductive Dialect.IsBody (L : Dialect) (compile : Compiler G) (askers : List Cursor) (c : Cursor) :
    Body G → Prop
  | children {content : DeclaredContent} : L.IsElementOnly c → L.Says c content →
      IsBody L compile askers c (.children content)
  | unwritten : ¬L.IsElementOnly c → L.textOf? c = none → IsBody L compile askers c .unsupported
  | refused {text : String} {i : Nat} : ¬L.IsElementOnly c → L.textOf? c = some text →
      askers[i]? = some c → compile i text = none → IsBody L compile askers c .unsupported
  | isolated {text : String} {i : Nat} {grammar : G} : ¬L.IsElementOnly c →
      L.textOf? c = some text → askers[i]? = some c → compile i text = some grammar →
      IsBody L compile askers c (.isolated grammar)

/-- A compiler that is called again gives no other answer to the calls before. -/
theorem Dialect.IsBody.append {L : Dialect} {askers : List Cursor} {c : Cursor} {body : Body G}
    (h : L.IsBody compile askers c body) (more : List Cursor) :
    L.IsBody compile (askers ++ more) c body := by
  have hstays : ∀ {i : Nat}, askers[i]? = some c → (askers ++ more)[i]? = some c := by
    intro i hi
    rw [List.getElem?_append_left (List.getElem?_eq_some_iff.mp hi).1, hi]
  cases h with
  | children honly hsays => exact .children honly hsays
  | unwritten honly htext => exact .unwritten honly htext
  | refused honly htext hi hnone => exact .refused honly htext (hstays hi) hnone
  | isolated honly htext hi hsome => exact .isolated honly htext (hstays hi) hsome

/-! ## What stays -/

namespace Collected

/-- The name of the declaration at a position. -/
def nameAt? (s : Collected G) (index : Nat) : Option String :=
  s.declarations[index]?.map Declaration.name

/-- The particles refer to declarations with their names. -/
def Resolves (s : Collected G) (content : DeclaredContent) : Prop :=
  ∀ p ∈ content.particles, s.nameAt? p.target = some p.name

/-- Declarations keep their names, and entries stay. -/
structure Precedes (s s' : Collected G) : Prop where
  names : ∀ {index name}, s.nameAt? index = some name → s'.nameAt? index = some name
  known : s.known ⊆ s'.known

namespace Precedes

variable {s s' s'' : Collected G}

theorem refl (s : Collected G) : s.Precedes s where
  names h := h
  known := List.Subset.refl _

theorem trans (h : s.Precedes s') (h' : s'.Precedes s'') : s.Precedes s'' where
  names hname := h'.names (h.names hname)
  known := List.Subset.trans h.known h'.known

theorem resolves (h : s.Precedes s') {content : DeclaredContent} (hresolves : s.Resolves content) :
    s'.Resolves content :=
  fun p hp => h.names (hresolves p hp)

end Precedes

section

variable (s : Collected G) (index : Nat) (body : Body G) (requests : List String)

/-- What has been read once a declaration that no element makes is entered. -/
def enteredUndefined (name : String) : Collected G :=
  { s with declarations := s.declarations ++ [{ name := name, body := .unsupported }] }

/-- What has been read once a declaration is settled, with further requests to the compiler. -/
def settled : Collected G :=
  { s with
    declarations := s.declarations.modify index (fun d => { d with body := body })
    requests := s.requests ++ requests }

theorem nameAt?_append {declarations : List (Declaration G)} {name : String} (d : Declaration G)
    (h : (declarations[index]?).map Declaration.name = some name) :
    ((declarations ++ [d])[index]?).map Declaration.name = some name := by
  obtain ⟨found, hfound, rfl⟩ := Option.map_eq_some_iff.mp h
  rw [List.getElem?_append_left (List.getElem?_eq_some_iff.mp hfound).1, hfound]
  rfl

theorem precedes_enteredUndefined (name : String) : s.Precedes (s.enteredUndefined name) where
  names h := nameAt?_append _ _ h
  known := List.Subset.refl _

theorem precedes_entered (path : List Nat) (name : String) : s.Precedes (s.entered path name) where
  names h := nameAt?_append _ _ h
  known := List.subset_cons_self _ _

theorem nameAt?_enteredUndefined (name : String) :
    (s.enteredUndefined name).nameAt? s.declarations.length = some name := by
  rw [nameAt?, enteredUndefined, List.getElem?_concat_length]
  rfl

theorem nameAt?_entered (path : List Nat) (name : String) :
    (s.entered path name).nameAt? s.declarations.length = some name :=
  s.nameAt?_enteredUndefined name

theorem nameAt?_settled (i : Nat) : (s.settled index body requests).nameAt? i = s.nameAt? i := by
  rw [nameAt?, settled, List.getElem?_modify, nameAt?, Option.map_eq_map, Option.map_map]
  refine congrArg (fun f => s.declarations[i]?.map f) (funext fun d => ?_)
  show (if index = i then ({ d with body := body } : Declaration G) else d).name = d.name
  split
  · rfl
  · rfl

/-- The declaration that is settled has the body, and the others are as they were. -/
theorem getElem?_settled_cases {i : Nat} {d : Declaration G}
    (h : (s.settled index body requests).declarations[i]? = some d) :
    i = index ∧ d.body = body ∨ i ≠ index ∧ s.declarations[i]? = some d := by
  rcases eq_or_ne index i with rfl | hne
  · have hmodified : (s.declarations.modify index (fun d => { d with body := body }))[index]? =
        some d := h
    rw [List.getElem?_modify_eq, Option.map_eq_map] at hmodified
    obtain ⟨d', -, rfl⟩ := Option.map_eq_some_iff.mp hmodified
    exact .inl ⟨rfl, rfl⟩
  · exact .inr ⟨hne.symm, (List.getElem?_modify_ne _ _ hne).symm.trans h⟩

theorem precedes_settled : s.Precedes (s.settled index body requests) where
  names h := (s.nameAt?_settled index body requests _).trans h
  known := List.Subset.refl _

end

end Collected

/-! ## The invariant -/

/-- What has been built so far, with the declarations at the positions `pending` still to be
settled, and the standalone grammars of `askers` given to the compiler. -/
structure BuiltBy (document : Document) (L : Dialect) (compile : Compiler G) (askers : List Cursor)
    (pending : List Nat) (s : Collected G) : Prop where
  recorded : Recorded document L.nameOf L.Says s
  once : ∀ {path index index'}, (path, index) ∈ s.known → (path, index') ∈ s.known →
    index = index'
  undefined : ∀ {index d}, s.declarations[index]? = some d →
    (∃ path, (path, index) ∈ s.known) ∨ d.body = .unsupported ∧ L.IsUndefined d.name
  settled : ∀ {c index d}, document.Holds c → (c.path, index) ∈ s.known → index ∉ pending →
    s.declarations[index]? = some d → L.IsBody compile askers c d.body
  targets : ∀ {index : Nat} {d : Declaration G} {content : DeclaredContent},
    s.declarations[index]? = some d → d.body = .children content → s.Resolves content
  asked : List.Forall₂ (fun c text => L.textOf? c = some text) askers s.requests
  askers : (askers.map Cursor.path).Nodup ∧ ∀ c ∈ askers, document.Holds c ∧
    ∃ index, (c.path, index) ∈ s.known ∧ index ∉ pending
  pending : ∀ index ∈ pending, ∃ path, (path, index) ∈ s.known

/-- What has been built so far, whatever was given to the compiler. -/
def Built (document : Document) (L : Dialect) (compile : Compiler G) (pending : List Nat)
    (s : Collected G) : Prop :=
  ∃ askers, BuiltBy document L compile askers pending s

namespace BuiltBy

variable {L : Dialect} {askers : List Cursor} {pending : List Nat} {s : Collected G} {c : Cursor}
  {index : Nat}

theorem empty : BuiltBy document L compile [] [] ({} : Collected G) where
  recorded := .empty
  once h _ := absurd h List.not_mem_nil
  undefined h := by cases h
  settled _ h _ _ := absurd h List.not_mem_nil
  targets h _ := by cases h
  asked := .nil
  askers := ⟨List.nodup_nil, fun _ h => absurd h List.not_mem_nil⟩
  pending _ h := absurd h List.not_mem_nil

/-- A position that is handed out next belongs to no element yet. -/
theorem lt_length (h : BuiltBy document L compile askers pending s) {path : List Nat}
    (hknown : (path, index) ∈ s.known) : index < s.declarations.length :=
  h.recorded.lt_length hknown

theorem length_not_mem_pending (h : BuiltBy document L compile askers pending s) :
    s.declarations.length ∉ pending := by
  intro hmem
  obtain ⟨path, hknown⟩ := h.pending _ hmem
  exact absurd (h.lt_length hknown) (Nat.lt_irrefl _)

/-- The declaration of an element bears its name. -/
theorem nameAt?_eq (h : BuiltBy document L compile askers pending s) (hc : document.Holds c)
    (hknown : (c.path, index) ∈ s.known) : s.nameAt? index = some (L.nameOf c) := by
  obtain ⟨c', d, hc', hpath, hd, hname, -⟩ := h.recorded.stands hknown
  obtain rfl := hc'.eq_of_path_eq hc hpath
  rw [Collected.nameAt?, hd]
  exact congrArg some hname

/-- A declaration is among those before, or it is the one that was added. -/
theorem getElem?_concat_cases {l : List α} {a b : α} {i : Nat} (h : (l ++ [a])[i]? = some b) :
    l[i]? = some b ∨ i = l.length ∧ b = a := by
  rcases Nat.lt_or_ge i l.length with hlt | hge
  · exact .inl (List.getElem?_append_left hlt ▸ h)
  · rw [List.getElem?_append_right hge] at h
    obtain ⟨hlt, hb⟩ := List.getElem?_eq_some_iff.mp h
    have hi : i = l.length := by
      have hlt : i - l.length < 1 := hlt
      omega
    refine .inr ⟨hi, ?_⟩
    rw [← hb, List.getElem_singleton]

theorem enteredUndefined (h : BuiltBy document L compile askers pending s) {name : String}
    (hname : L.IsUndefined name) :
    BuiltBy document L compile askers pending (s.enteredUndefined name) where
  recorded := h.recorded.enterUndefined name
  once := h.once
  undefined := by
    intro index d hd
    rcases getElem?_concat_cases hd with hd | ⟨-, rfl⟩
    · exact h.undefined hd
    · exact .inr ⟨rfl, hname⟩
  settled := by
    intro c index d hc hknown hsettled hd
    rcases getElem?_concat_cases hd with hd | ⟨rfl, -⟩
    · exact h.settled hc hknown hsettled hd
    · exact absurd (h.lt_length hknown) (Nat.lt_irrefl _)
  targets := by
    intro index d content hd hbody
    rcases getElem?_concat_cases hd with hd | ⟨-, rfl⟩
    · exact (s.precedes_enteredUndefined name).resolves (h.targets hd hbody)
    · cases hbody
  asked := h.asked
  askers := h.askers
  pending := h.pending

/-- An element is entered, and its declaration is still to be settled. -/
theorem entered (h : BuiltBy document L compile askers pending s) (hc : document.Holds c)
    (hnew : s.known.lookup c.path = none) :
    BuiltBy document L compile askers (s.declarations.length :: pending)
      (s.entered c.path (L.nameOf c)) where
  recorded := h.recorded.enter hc
  once := by
    have hfirst : ∀ index, (c.path, index) ∉ s.known :=
      fun index hmem => by simpa using List.lookup_eq_none_iff.mp hnew _ hmem
    intro path index index' hknown hknown'
    rcases List.mem_cons.mp hknown with heq | hknown <;>
      rcases List.mem_cons.mp hknown' with heq' | hknown'
    · exact (Prod.mk.inj heq).2.trans (Prod.mk.inj heq').2.symm
    · obtain ⟨rfl, -⟩ := Prod.mk.inj heq
      exact absurd hknown' (hfirst _)
    · obtain ⟨rfl, -⟩ := Prod.mk.inj heq'
      exact absurd hknown (hfirst _)
    · exact h.once hknown hknown'
  undefined := by
    intro index d hd
    rcases getElem?_concat_cases hd with hd | ⟨rfl, -⟩
    · refine (h.undefined hd).imp_left ?_
      rintro ⟨path, hknown⟩
      exact ⟨path, List.mem_cons_of_mem _ hknown⟩
    · exact .inl ⟨c.path, List.mem_cons_self⟩
  settled := by
    intro c' index d hc' hknown hsettled hd
    have hne := List.ne_of_not_mem_cons hsettled
    have hsettled := List.not_mem_of_not_mem_cons hsettled
    rcases List.mem_cons.mp hknown with heq | hknown
    · exact absurd (Prod.mk.inj heq).2 hne
    · rcases getElem?_concat_cases hd with hd | ⟨rfl, -⟩
      · exact h.settled hc' hknown hsettled hd
      · exact absurd rfl hne
  targets := by
    intro index d content hd hbody
    rcases getElem?_concat_cases hd with hd | ⟨-, rfl⟩
    · exact (s.precedes_entered c.path _).resolves (h.targets hd hbody)
    · cases hbody
  asked := h.asked
  askers := by
    refine ⟨h.askers.1, fun c' hc' => ?_⟩
    obtain ⟨hholds, index, hknown, hsettled⟩ := h.askers.2 c' hc'
    have hne : index ≠ s.declarations.length := Nat.ne_of_lt (h.lt_length hknown)
    exact ⟨hholds, index, List.mem_cons_of_mem _ hknown,
      List.not_mem_cons_of_ne_of_not_mem hne hsettled⟩
  pending := by
    intro index hindex
    rcases List.mem_cons.mp hindex with rfl | hindex
    · exact ⟨c.path, List.mem_cons_self⟩
    · obtain ⟨path, hknown⟩ := h.pending index hindex
      exact ⟨path, List.mem_cons_of_mem _ hknown⟩

/-- The declaration of an element is settled; `added` is its standalone grammar, if the compiler was
called for it. -/
theorem settle (h : BuiltBy document L compile askers (index :: pending) s)
    (hindex : index ∉ pending) (hc : document.Holds c) (hknown : (c.path, index) ∈ s.known)
    {body : Body G} {added : Option String}
    (hadded : ∀ text, added = some text → L.textOf? c = some text)
    (hbody : L.IsBody compile (askers ++ added.toList.map (fun _ => c)) c body)
    (hcontent : ∀ content, body = .children content → s.Resolves content) :
    BuiltBy document L compile (askers ++ added.toList.map (fun _ => c)) pending
      (s.settled index body added.toList) where
  recorded := by
    refine ⟨?_, h.recorded.apart, ?_⟩
    · refine (h.recorded.setBody hc hknown fun content heq => ?_).stands
      subst heq
      cases hbody with
      | children _ hsays => exact hsays
    · intro index' d hd
      rcases s.getElem?_settled_cases index body _ hd with ⟨rfl, -⟩ | ⟨-, hd⟩
      · exact .inl ⟨c.path, hknown⟩
      · exact h.recorded.rest hd
  once := h.once
  undefined := by
    intro index' d hd
    rcases s.getElem?_settled_cases index body _ hd with ⟨rfl, -⟩ | ⟨-, hd⟩
    · exact .inl ⟨c.path, hknown⟩
    · exact h.undefined hd
  settled := by
    intro c' index' d hc' hknown' hsettled hd
    rcases s.getElem?_settled_cases index body _ hd with ⟨rfl, rfl⟩ | ⟨hne, hd⟩
    · obtain rfl := hc.eq_of_path_eq hc' (h.recorded.apart hknown hknown')
      exact hbody
    · have hpending : index' ∉ index :: pending :=
        List.not_mem_cons_of_ne_of_not_mem hne hsettled
      exact (h.settled hc' hknown' hpending hd).append _
  targets := by
    intro index' d content hd hchildren
    refine (s.precedes_settled index body added.toList).resolves ?_
    rcases s.getElem?_settled_cases index body _ hd with ⟨rfl, rfl⟩ | ⟨-, hd⟩
    · exact hcontent content hchildren
    · exact h.targets hd hchildren
  asked := by
    refine List.rel_append h.asked ?_
    cases added with
    | none => exact .nil
    | some text => exact .cons (hadded text rfl) .nil
  askers := by
    constructor
    · cases added with
      | none => simpa using h.askers.1
      | some text =>
          -- the element is not settled yet, and the compiler was called for settled ones only
          have hnew : c.path ∉ askers.map Cursor.path := by
            intro hmem
            obtain ⟨c', hc', hpath⟩ := List.mem_map.mp hmem
            obtain ⟨-, index', hknown', hsettled⟩ := h.askers.2 c' hc'
            obtain rfl := h.once hknown (hpath ▸ hknown')
            exact hsettled List.mem_cons_self
          rw [List.map_append]
          refine List.nodup_append.mpr ⟨h.askers.1, List.nodup_cons.mpr (by simp), ?_⟩
          intro path hpath path' hpath' heq
          obtain rfl := List.mem_singleton.mp hpath'
          exact hnew (heq ▸ hpath)
    · intro c' hc'
      rcases List.mem_append.mp hc' with hc' | hc'
      · obtain ⟨hholds, index', hknown', hsettled⟩ := h.askers.2 c' hc'
        exact ⟨hholds, index', hknown', List.not_mem_of_not_mem_cons hsettled⟩
      · obtain ⟨_, -, rfl⟩ := List.mem_map.mp hc'
        exact ⟨hc, index, hknown, hindex⟩
  pending index' hindex' := h.pending index' (List.mem_cons_of_mem _ hindex')

end BuiltBy

/-! ## Triples -/

/-- What is said of a value and of what has been collected goes on to hold. -/
def Stays (P : α → Collected G → Prop) : Prop :=
  ∀ ⦃a : α⦄ ⦃s s' : Collected G⦄, s.Precedes s' → P a s → P a s'

/-- An answer of a reader that looks for something: it finds it exactly if it is there. -/
def Answers (There : Prop) (P : α → Collected G → Prop) : Option α → Collected G → Prop
  | none, _ => ¬There
  | some a, s => There ∧ P a s

namespace Read

/-- From `s` the reader keeps an invariant and what stays, and returns a value with some
property. -/
def Builds (I : Collected G → Prop) (s : Collected G) (x : Read G α)
    (Q : α → Collected G → Prop) : Prop :=
  ∀ a s', I s → x.run s = some (a, s') → I s' ∧ s.Precedes s' ∧ Q a s'

namespace Builds

variable {I : Collected G → Prop} {s : Collected G} {x : Read G α} {f : α → Read G β}
  {Q : α → Collected G → Prop} {R : β → Collected G → Prop}

theorem tooDeep : Builds I s (tooDeep : Read G α) Q := by
  intro a s' _ h
  cases h

theorem pure {a : α} (h : Q a s) : Builds I s (Pure.pure a : Read G α) Q := by
  intro a' s' hI hrun
  cases hrun
  exact ⟨hI, .refl s, h⟩

theorem bind (hx : Builds I s x Q)
    (hf : ∀ a s', s.Precedes s' → Q a s' → Builds I s' (f a) R) : Builds I s (x >>= f) R := by
  intro b s'' hI hrun
  rw [StateT.run_bind] at hrun
  obtain ⟨⟨a, s'⟩, hfirst, hsecond⟩ := Option.bind_eq_some_iff.mp hrun
  obtain ⟨hI', hprecedes, ha⟩ := hx a s' hI hfirst
  obtain ⟨hI'', hprecedes', hb⟩ := hf a s' hprecedes ha b s'' hI' hsecond
  exact ⟨hI'', hprecedes.trans hprecedes', hb⟩

theorem mono {Q' : α → Collected G → Prop} (hx : Builds I s x Q) (h : ∀ a s', Q a s' → Q' a s') :
    Builds I s x Q' := by
  intro a s' hI hrun
  obtain ⟨hI', hprecedes, ha⟩ := hx a s' hI hrun
  exact ⟨hI', hprecedes, h a s' ha⟩

/-- What is known of the value alone. -/
theorem keeps {P : α → Prop} (hx : ∀ s, Builds I s x (fun a _ => P a)) : Keeps I x P := by
  intro s a s' hI hrun
  obtain ⟨hI', hprecedes, ha⟩ := hx s a s' hI hrun
  exact ⟨hI', hprecedes.known, ha⟩

theorem and_keeps {P : α → Prop} (hx : Builds I s x Q) (hP : Keeps I x P) :
    Builds I s x (fun a s' => P a ∧ Q a s') := by
  intro a s' hI hrun
  obtain ⟨hI', hprecedes, ha⟩ := hx a s' hI hrun
  exact ⟨hI', hprecedes, (hP s a s' hI hrun).2.2, ha⟩

/-- All results are there exactly if each of them is. -/
theorem allOrNone {g : α → Read G (Option β)} {There : α → Prop} {P : β → Collected G → Prop}
    (hstays : Stays P) {as : List α}
    (h : ∀ a ∈ as, ∀ s, Builds I s (g a) (Answers (There a) P)) :
    ∀ s, Builds I s (allOrNone g as)
      (Answers (∀ a ∈ as, There a) (fun bs s => ∀ b ∈ bs, P b s)) := by
  induction as with
  | nil =>
      refine fun s => .pure ⟨fun a ha => absurd ha List.not_mem_nil, ?_⟩
      exact fun b hb => absurd hb List.not_mem_nil
  | cons a as ih =>
      obtain ⟨ha, has⟩ := List.forall_mem_cons.mp h
      refine fun s => bind (ha s) fun o s₁ _ ho => ?_
      cases o with
      | none => exact .pure fun hall => ho (hall a List.mem_cons_self)
      | some b =>
          obtain ⟨hthere, hb⟩ := ho
          refine bind (ih has s₁) fun os s₂ hprecedes hos => ?_
          cases os with
          | none => exact .pure fun hall => hos (List.forall_mem_cons.mp hall).2
          | some bs =>
              obtain ⟨hall, hbs⟩ := hos
              refine .pure ⟨List.forall_mem_cons.mpr ⟨hthere, hall⟩, ?_⟩
              exact List.forall_mem_cons.mpr ⟨hstays hprecedes hb, hbs⟩

theorem forEach {g : α → Read G β} {P : β → Collected G → Prop}
    (hstays : Stays P) {as : List α}
    (h : ∀ a ∈ as, ∀ s, Builds I s (g a) P) :
    ∀ s, Builds I s (forEach g as) (fun bs s => ∀ b ∈ bs, P b s) := by
  induction as with
  | nil => exact fun s => .pure fun b hb => absurd hb List.not_mem_nil
  | cons a as ih =>
      obtain ⟨ha, has⟩ := List.forall_mem_cons.mp h
      refine fun s => bind (ha s) fun b s₁ _ hb => bind (ih has s₁) fun bs s₂ hprecedes hbs => ?_
      exact .pure (List.forall_mem_cons.mpr ⟨hstays hprecedes hb, hbs⟩)

end Builds

/-! ## Declarations -/

section

variable {L : Dialect} {askers : List Cursor} {pending : List Nat} {c : Cursor}

/-- The result of reading a declaration is a position, with the name of the declaration there. -/
def IsDeclared (result : Nat × String) (s : Collected G) : Prop :=
  s.nameAt? result.1 = some result.2

theorem stays_isDeclared : Stays (IsDeclared : Nat × String → Collected G → Prop) :=
  fun _ _ _ hprecedes h => hprecedes.names h

theorem Builds.enterUndefined {name : String} (hname : L.IsUndefined name) (s : Collected G) :
    Builds (Built document L compile pending) s (enterUndefined name)
      (fun index s => IsDeclared (index, name) s) := by
  rintro index s' ⟨askers, hI⟩ hrun
  cases hrun
  exact ⟨⟨askers, hI.enteredUndefined hname⟩, s.precedes_enteredUndefined name,
    s.nameAt?_enteredUndefined name⟩

/-- The body of an element that is not element-only is its standalone grammar, if it has one that
compiles. The compiler is called at most once for it. -/
theorem exists_added_of_isolate {s s' : Collected G} {body : Body G} (honly : ¬L.IsElementOnly c)
    (hlength : askers.length = s.requests.length)
    (hrun : (isolate compile (L.textOf? c)).run s = some (body, s')) :
    ∃ added : Option String, s' = { s with requests := s.requests ++ added.toList } ∧
      (∀ text, added = some text → L.textOf? c = some text) ∧
      (∀ content, body ≠ .children content) ∧
      L.IsBody compile (askers ++ added.toList.map (fun _ => c)) c body := by
  cases htext : L.textOf? c with
  | none =>
      rw [htext] at hrun
      cases hrun
      refine ⟨none, ?_, ?_, ?_, .unwritten honly htext⟩
      · rw [Option.toList_none, List.append_nil]
      · intro text h
        cases h
      · intro content h
        cases h
  | some text =>
      rw [htext] at hrun
      have hlast : (askers ++ [c])[s.requests.length]? = some c :=
        hlength ▸ List.getElem?_concat_length
      refine ⟨some text, ?_⟩
      rw [isolate, StateT.run_bind] at hrun
      obtain ⟨⟨answer, s₁⟩, hcall, hrun⟩ := Option.bind_eq_some_iff.mp hrun
      cases hcall
      cases hcompiled : compile s.requests.length text with
      | none =>
          rw [hcompiled] at hrun
          cases hrun
          refine ⟨rfl, fun _ h => h, ?_, .refused honly htext hlast hcompiled⟩
          intro content h
          cases h
      | some grammar =>
          rw [hcompiled] at hrun
          cases hrun
          refine ⟨rfl, fun _ h => h, ?_, .isolated honly htext hlast hcompiled⟩
          intro content h
          cases h

/-- The declaration of an element is settled by what was found of its content. -/
theorem Builds.settled (hc : document.Holds c) {index : Nat} {name : String}
    (hindex : index ∉ pending) {s : Collected G} (hknown : (c.path, index) ∈ s.known)
    (hname : IsDeclared (index, name) s) {content : Read G (Option DeclaredContent)}
    (hcontent : Builds (Built document L compile (index :: pending)) s content
      (Answers (L.IsElementOnly c) (fun content s => L.Says c content ∧ s.Resolves content))) :
    ∀ result s', Built document L compile (index :: pending) s →
      (settled compile index name (L.textOf? c) content).run s = some (result, s') →
        Built document L compile pending s' ∧ s.Precedes s' ∧ result = (index, name) ∧
          IsDeclared result s' := by
  intro result s' hI hrun
  rw [Read.settled, StateT.run_bind] at hrun
  obtain ⟨⟨found, s₁⟩, hfirst, hrun⟩ := Option.bind_eq_some_iff.mp hrun
  obtain ⟨⟨askers, hI₁⟩, hprecedes, hfound⟩ := hcontent found s₁ hI hfirst
  have hknown₁ : (c.path, index) ∈ s₁.known := hprecedes.known hknown
  have hname₁ : s₁.nameAt? index = some name := hprecedes.names hname
  rw [StateT.run_bind] at hrun
  obtain ⟨⟨body, s₂⟩, hsecond, hrun⟩ := Option.bind_eq_some_iff.mp hrun
  suffices h : ∃ added : Option String,
      s₂ = { s₁ with requests := s₁.requests ++ added.toList } ∧
        (∀ text, added = some text → L.textOf? c = some text) ∧
        (∀ content, body = .children content → s₁.Resolves content) ∧
        L.IsBody compile (askers ++ added.toList.map (fun _ => c)) c body by
    obtain ⟨added, rfl, hadded, hresolves, hbody⟩ := h
    cases hrun
    refine ⟨⟨_, hI₁.settle hindex hc hknown₁ hadded hbody hresolves⟩, ?_, rfl, ?_⟩
    · exact hprecedes.trans (s₁.precedes_settled index body added.toList)
    · exact (s₁.nameAt?_settled index body added.toList index).trans hname₁
  cases found with
  | some content =>
      obtain ⟨honly, hsays, hresolves⟩ := hfound
      cases hsecond
      refine ⟨none, ?_, ?_, ?_, .children honly hsays⟩
      · rw [Option.toList_none, List.append_nil]
      · intro text h
        cases h
      · intro content' h
        cases h
        exact hresolves
  | none =>
      obtain ⟨added, hs₂, hadded, hno, hbody⟩ :=
        exists_added_of_isolate hfound hI₁.asked.length_eq hsecond
      exact ⟨added, hs₂, hadded, fun content h => absurd h (hno content), hbody⟩

/-- Reading the declaration of an element builds on, if reading its content does and finds it
exactly if the element is element-only. -/
theorem Builds.declared (hc : document.Holds c) {content : Read G (Option DeclaredContent)}
    (hcontent : ∀ pending s, Builds (Built document L compile pending) s content
      (Answers (L.IsElementOnly c) (fun content s => L.Says c content ∧ s.Resolves content)))
    (s : Collected G) :
    Builds (Built document L compile pending) s
      (declared compile c.path (L.nameOf c) (L.textOf? c) content)
      (fun result s => result.2 = L.nameOf c ∧ IsDeclared result s) := by
  rintro result s' ⟨askers, hI⟩ hrun
  cases hlookup : s.known.lookup c.path with
  | some index =>
      rw [run_declared_of_known hlookup] at hrun
      cases hrun
      have hknown : (c.path, index) ∈ s.known := by
        obtain ⟨before, after, hsplit, -⟩ := List.lookup_eq_some_iff.mp hlookup
        rw [hsplit]
        exact List.mem_append_right _ List.mem_cons_self
      exact ⟨⟨askers, hI⟩, .refl s, rfl, hI.nameAt?_eq hc hknown⟩
  | none =>
      rw [run_declared_of_new hlookup] at hrun
      obtain ⟨hI', hprecedes, rfl, hdeclared⟩ :=
        settled hc hI.length_not_mem_pending List.mem_cons_self (s.nameAt?_entered c.path _)
          (hcontent _ _) result s' ⟨askers, hI.entered hc hlookup⟩ hrun
      exact ⟨hI', (s.precedes_entered c.path _).trans hprecedes, rfl, hdeclared⟩

end

end Read

end VideoCatalog.Grammar
