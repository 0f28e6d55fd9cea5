import VideoCatalog.Grammar.Model
import VideoCatalog.Proofs.Grammar.FlatTable
import VideoCatalog.Proofs.Grammar.Placement

/-!
# No position lies outside its list

A model refers to its declarations by position, and so does the placement of children to particles
and to what is counted for them. `Model.explainWithin` is the listing with every such position
looked up: the declaration of a root, of a particle and of a child that is walked, the particle that
keeps a child, and the cells of the table of gains. `none` as its outcome means that one of them lay
outside its list; the names of particles are those of the declarations that they refer to.

`Model.IsClosed` is what a model needs for that: its roots and particles refer to declarations that
it has, and a particle bears the name of its declaration. Then no position lies outside, for any
document and any way of checking elements on their own, and the listing is that of `Model.explain`
(`explainWithin_eq`).
-/

namespace VideoCatalog.Grammar

open Xml (Element)

variable {δ : Type}

namespace Content

/-! ## Unordered content -/

/-- The first of these particles that has the name and room left. -/
def roomWithin (name : String) (particles : List (Particle δ)) (used : List Nat) :
    List Nat → Checked (Option Nat)
  | [] => some none
  | p :: ps => do
    let q ← particles[p]?
    if q.name = name then
      match q.max with
      | none => some (some p)
      | some max => do
        let u ← used[p]?
        if u < max then some (some p) else roomWithin name particles used ps
    else roomWithin name particles used ps

/-- Unordered content, with these numbers of children placed so far. -/
def fillFromWithin (particles : List (Particle δ)) :
    List Nat → List String → Checked (List (Option Nat))
  | _, [] => some []
  | used, name :: names => do
    match ← roomWithin name particles used (List.range particles.length) with
    | none => do
      let rest ← fillFromWithin particles used names
      some (none :: rest)
    | some p => do
      let u ← used[p]?
      let used ← put? used p (u + 1)
      let rest ← fillFromWithin particles used names
      some (some p :: rest)

variable {particles : List (Particle δ)} {used : List Nat} {name : String}

/-- Looking on from particle `n` finds what the search through the particles from there on does. -/
theorem roomWithin_eq (hlength : used.length = particles.length) :
    ∀ (m n : Nat), n + m = particles.length →
      roomWithin name particles used (List.range' n m) =
        some ((room? name (particles.drop n) (used.drop n)).map (· + n))
  | 0, n, hn => by
      have hend : particles.length ≤ n := by omega
      rw [List.drop_eq_nil_of_le hend]
      rfl
  | m + 1, n, hn => by
      have hp : n < particles.length := by omega
      have hu : n < used.length := by omega
      rw [List.range'_succ, roomWithin, roomWithin_eq hlength m (n + 1) (by omega),
        List.drop_eq_getElem_cons hp, List.drop_eq_getElem_cons hu, room?,
        List.getElem?_eq_getElem hp, List.getElem?_eq_getElem hu]
      simp only [Option.bind_eq_bind, Option.bind_some]
      have hlater : ∀ found : Option Nat,
          (found.map (· + 1)).map (· + n) = found.map (· + (n + 1)) := by
        intro found
        rw [Option.map_map]
        refine congrArg (fun f => found.map f) (funext fun i => ?_)
        show i + 1 + n = i + (n + 1)
        omega
      by_cases hname : particles[n].name = name
      · cases hmax : particles[n].max with
        | none => simp [hname]
        | some max =>
            by_cases hroom : used[n] < max
            · simp [hname, hroom]
            · simp [hname, hroom, hlater]
      · simp [hname, hlater]

theorem fillFromWithin_eq (hlength : used.length = particles.length) (names : List String) :
    fillFromWithin particles used names = some (fillFrom particles used names) := by
  induction names generalizing used with
  | nil => rfl
  | cons name names ih =>
      have hroom : roomWithin name particles used (List.range particles.length) =
          some (room? name particles used) := by
        have hall : roomWithin name particles used (List.range' 0 particles.length) =
            some ((room? name (particles.drop 0) (used.drop 0)).map (· + 0)) :=
          roomWithin_eq hlength particles.length 0 (Nat.zero_add _)
        rw [← List.range_eq_range'] at hall
        simpa using hall
      rw [fillFromWithin, fillFrom, hroom]
      simp only [Option.bind_eq_bind, Option.bind_some]
      cases hfound : room? name particles used with
      | none =>
          dsimp only
          rw [ih hlength]
          rfl
      | some p =>
          obtain ⟨q, u, -, hu, -⟩ := isFree_of_room? hfound
          have hp : p < used.length := (List.getElem?_eq_some_iff.mp hu).1
          have hput : put? used p (u + 1) = some (used.modify p (· + 1)) := by
            rw [put?, if_pos hp, List.modify_eq_set_getElem? (· + 1) p used, hu]
            rfl
          have hlength' : (used.modify p (· + 1)).length = particles.length := by
            rw [List.length_modify, hlength]
          dsimp only
          rw [hu, Option.bind_some, hput, Option.bind_some, ih hlength']
          rfl

/-! ## Both -/

/-- For each child the particle that keeps it. -/
def assignWithin (c : Content δ) (names : List String) : Checked (List (Option Nat)) :=
  if c.ordered then alignWithin c.particles names
  else fillFromWithin c.particles (List.replicate c.particles.length 0) names

theorem assignWithin_eq (c : Content δ) (names : List String) :
    c.assignWithin names = some (c.assign names) := by
  unfold assignWithin assign
  by_cases hordered : c.ordered = true
  · rw [if_pos hordered, if_pos hordered, alignWithin_eq]
  · rw [if_neg hordered, if_neg hordered, fill, List.map_const',
      fillFromWithin_eq List.length_replicate]

/-- The slot of a child, given the particle that keeps it. -/
def slotWithin (c : Content δ) (name : String) : Option Nat → Checked (Slot δ)
  | none => some (c.strayed name)
  | some p => do
    let q ← c.particles[p]?
    some (.accepted q.target)

/-- The slots of children, given the particles that keep them. -/
def slotsWithin (c : Content δ) : List String → List (Option Nat) → Checked (List (Slot δ))
  | name :: names, kept :: rest => do
    let slot ← c.slotWithin name kept
    let slots ← c.slotsWithin names rest
    some (slot :: slots)
  | _, _ => some []

/-- The slots of the children, in order. -/
def placeWithin (c : Content δ) (names : List String) : Checked (List (Slot δ)) := do
  let assigned ← c.assignWithin names
  c.slotsWithin names assigned

theorem slotsWithin_eq (c : Content δ) {names : List String} {assigned : List (Option Nat)}
    (h : List.Forall₂ (fun name kept => ∀ j, kept = some j →
      ∃ q, c.particles[j]? = some q ∧ q.name = name) names assigned) :
    c.slotsWithin names assigned = some (List.zipWith c.slot names assigned) := by
  induction h with
  | nil => rfl
  | @cons name kept names assigned hkept _ ih =>
      have hslot : c.slotWithin name kept = some (c.slot name kept) := by
        cases kept with
        | none => rfl
        | some j =>
            obtain ⟨q, hq, -⟩ := hkept j rfl
            simp only [slotWithin, slot, hq, Option.bind_eq_bind, Option.bind_some]
      rw [slotsWithin, hslot, ih]
      rfl

/-- What a child is checked against is what some particle says. -/
theorem exists_of_place {c : Content δ} {names : List String} {slot : Slot δ} {target : δ}
    (hslot : slot ∈ c.place names) (htarget : slot.target? = some target) :
    ∃ p ∈ c.particles, p.target = target := by
  rw [place, ← List.map_uncurry_zip_eq_zipWith] at hslot
  obtain ⟨⟨name, kept⟩, -, rfl⟩ := List.mem_map.mp hslot
  simp only [Function.uncurry_apply_pair, slot] at htarget
  split at htarget
  · next p hp =>
    obtain ⟨j, -, hj⟩ := Option.bind_eq_some_iff.mp hp
    exact ⟨p, List.mem_of_getElem? hj, Option.some.inj htarget⟩
  · unfold strayed at htarget
    split at htarget
    · next p hp => exact ⟨p, List.mem_of_find?_eq_some hp, Option.some.inj htarget⟩
    · cases htarget

/-- No position lies outside in placing children, whatever the content is. -/
theorem placeWithin_eq (c : Content δ) (names : List String) :
    c.placeWithin names = some (c.place names) := by
  rw [placeWithin, assignWithin_eq, place]
  exact c.slotsWithin_eq (names_of_assign c names)

end Content

/-! ## A model and its declarations -/

namespace Model

variable {G : Type}

/-- The particle with the name of the declaration that it refers to. -/
def resolveParticle (m : Model G) (p : Particle Nat) : Checked (Particle Nat) := do
  let declaration ← m.declarations[p.target]?
  some { p with name := declaration.name }

/-- The content with the names of the declarations that its particles refer to. -/
def resolve (m : Model G) (content : DeclaredContent) : Checked DeclaredContent := do
  let particles ← content.particles.mapM m.resolveParticle
  some { content with particles := particles }

mutual
/-- The messages for an element checked against the declaration at a position, and for all below it,
if they come to an answer. -/
def explainElementWithin (m : Model G) (d : Diagnostics G) :
    Element → Nat → Checked (Option (List String))
  | .mk tag text children, index => do
    let declaration ← m.declarations[index]?
    match declaration.body with
    | .unsupported => some none
    | .isolated grammar => some (d.isolated grammar (.mk tag text children))
    | .children content => do
      let content ← m.resolve content
      let names := children.map Element.name
      let slots ← content.placeWithin names
      let own := (childViolations declaration.name names slots ++
        (content.missing names).map (Violation.missing declaration.name)).map d.violation
      match ← explainChildrenWithin m d children slots with
      | none => some none
      | some below => some (some (own ++ below))

/-- The messages for the children that have a declaration to be checked against. -/
def explainChildrenWithin (m : Model G) (d : Diagnostics G) :
    List Element → List (Slot Nat) → Checked (Option (List String))
  | child :: children, slot :: slots =>
    match slot.target? with
    | none => explainChildrenWithin m d children slots
    | some index => do
      match ← explainElementWithin m d child index with
      | none => some none
      | some here =>
        match ← explainChildrenWithin m d children slots with
        | none => some none
        | some rest => some (some (here ++ rest))
  | _, _ => some (some [])
end

/-- The first of these declarations that has the name. -/
def rootWithin (m : Model G) (name : String) : List Nat → Checked (Option Nat)
  | [] => some none
  | index :: roots => do
    let declaration ← m.declarations[index]?
    if declaration.name = name then some (some index) else m.rootWithin name roots

/-- The messages for a document with this root element, unless it lies outside the model. -/
def explainWithin (m : Model G) (d : Diagnostics G) : Option Element →
    Checked (Option (List String))
  | none => some none
  | some root => do
    match ← m.rootWithin root.name m.roots with
    | none => some none
    | some index => m.explainElementWithin d root index

/-- All positions in the model are those of declarations that it has, and its particles bear their
names. -/
structure IsClosed (m : Model G) : Prop where
  roots : ∀ index ∈ m.roots, index < m.declarations.length
  particles : ∀ declaration ∈ m.declarations, ∀ content, declaration.body = .children content →
    ∀ p ∈ content.particles, ∃ target, m.declarations[p.target]? = some target ∧
      target.name = p.name

namespace IsClosed

variable {m : Model G} {content : DeclaredContent} {d : Diagnostics G}

theorem resolve_eq (h : ∀ p ∈ content.particles, ∃ target, m.declarations[p.target]? = some target ∧
    target.name = p.name) : m.resolve content = some content := by
  have hparticle : ∀ p ∈ content.particles, m.resolveParticle p = some p := by
    intro p hp
    obtain ⟨target, htarget, hname⟩ := h p hp
    rw [resolveParticle, htarget]
    show some { p with name := target.name } = some p
    rw [hname]
  have hall : ∀ ps : List (Particle Nat), (∀ p ∈ ps, m.resolveParticle p = some p) →
      ps.mapM m.resolveParticle = some ps := by
    intro ps hps
    induction ps with
    | nil => rfl
    | cons p ps ih =>
        obtain ⟨hp, hps⟩ := List.forall_mem_cons.mp hps
        rw [List.mapM_cons, hp, ih hps]
        rfl
  rw [resolve, hall _ hparticle]
  rfl

mutual
theorem explainElementWithin_eq (h : m.IsClosed) :
    ∀ (e : Element) (index : Nat), index < m.declarations.length →
      m.explainElementWithin d e index = some (m.explainElement d e index)
  | .mk tag text children, index, hindex => by
      have hdeclaration : m.declarations[index]? = some m.declarations[index] :=
        List.getElem?_eq_getElem hindex
      rw [explainElementWithin, explainElement, hdeclaration]
      simp only [Option.bind_eq_bind, Option.bind_some]
      cases hbody : m.declarations[index].body with
      | unsupported => rfl
      | isolated grammar => rfl
      | children content =>
          have hparticles := h.particles _ (List.getElem_mem hindex) content hbody
          have hslots : ∀ slot ∈ content.place (children.map Element.name), ∀ next,
              slot.target? = some next → next < m.declarations.length := by
            intro slot hslot next hnext
            obtain ⟨p, hp, rfl⟩ := Content.exists_of_place hslot hnext
            obtain ⟨target, htarget, -⟩ := hparticles p hp
            exact (List.getElem?_eq_some_iff.mp htarget).1
          have hbelow := explainChildrenWithin_eq h children _ hslots
          dsimp only
          rw [resolve_eq hparticles, Option.bind_some, Content.placeWithin_eq, Option.bind_some,
            hbelow, Option.bind_some]
          cases m.explainChildren d children (content.place (children.map Element.name)) <;> rfl

theorem explainChildrenWithin_eq (h : m.IsClosed) :
    ∀ (children : List Element) (slots : List (Slot Nat)),
      (∀ slot ∈ slots, ∀ next, slot.target? = some next → next < m.declarations.length) →
      m.explainChildrenWithin d children slots = some (m.explainChildren d children slots)
  | [], _, _ => rfl
  | _ :: _, [], _ => rfl
  | child :: children, slot :: slots, hslots => by
      obtain ⟨hslot, hslots⟩ := List.forall_mem_cons.mp hslots
      have hrest := explainChildrenWithin_eq h children slots hslots
      rw [explainChildrenWithin, explainChildren]
      cases htarget : slot.target? with
      | none => exact hrest
      | some index =>
          have hhere := explainElementWithin_eq h child index (hslot index htarget)
          dsimp only
          rw [hhere, hrest]
          cases m.explainElement d child index with
          | none => rfl
          | some here => cases m.explainChildren d children slots <;> rfl
end

theorem rootWithin_eq (name : String) {roots : List Nat}
    (h : ∀ index ∈ roots, index < m.declarations.length) :
    m.rootWithin name roots =
      some (roots.find? (fun index => (m.declarations[index]?).any (fun d => d.name == name))) := by
  induction roots with
  | nil => rfl
  | cons index roots ih =>
      obtain ⟨hindex, hroots⟩ := List.forall_mem_cons.mp h
      rw [rootWithin, ih hroots, List.find?_cons, List.getElem?_eq_getElem hindex]
      by_cases hname : m.declarations[index].name = name
      · simp [hname]
      · have hbeq : (m.declarations[index].name == name) = false := beq_eq_false_iff_ne.mpr hname
        simp [hname, hbeq]

/-- Where all positions in a model are those of its declarations, none lies outside in any listing,
and the listing is that of the model. -/
theorem explainWithin_eq (h : m.IsClosed) (d : Diagnostics G) (root : Option Element) :
    m.explainWithin d root = some (m.explain d root) := by
  cases root with
  | none => rfl
  | some root =>
      rw [explainWithin, rootWithin_eq root.name h.roots, explain]
      simp only [Option.bind_eq_bind, Option.bind_some, root?]
      cases hfound : m.roots.find?
          (fun index => (m.declarations[index]?).any (fun d => d.name == root.name)) with
      | none => rfl
      | some index =>
          have hindex := h.roots index (List.mem_of_find?_eq_some hfound)
          exact explainElementWithin_eq h root index hindex

end IsClosed

end Model

end VideoCatalog.Grammar
