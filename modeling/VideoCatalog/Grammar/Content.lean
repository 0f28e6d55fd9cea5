/-!
Element-only content and how the children of an element are placed in it.

A content is a list of particles, each of which admits children of one name between a least and a
greatest number of times. In an ordered content the particles follow one another; in an unordered
one their children may be mixed. `place` gives every child its slot: accepted by a particle,
misplaced if some particle has its name but none has room for it there, or unexpected.

Ordered content is placed by a table of gains. The gain of a state, being at particle `p` with `k`
of its occurrences used, is the greatest number of the children still to come that can be kept from
there on; the rows of the table are computed from the last child to the first, and the placement
follows the gains from the first child to the last.
-/

namespace VideoCatalog.Grammar

/-- Children of one name, between `min` and `max` times; without a `max` any number of times.
`target` says what such a child is checked against. -/
structure Particle (δ : Type) where
  target : δ
  name : String
  min : Nat
  max : Option Nat
  deriving DecidableEq

/-- The children that an element may have. -/
structure Content (δ : Type) where
  ordered : Bool
  particles : List (Particle δ)

/-- What a content makes of one child. -/
inductive Slot (δ : Type) where
  | accepted (target : δ)
  | misplaced (target : δ)
  | unexpected
  deriving DecidableEq

namespace Slot

variable {δ : Type}

/-- What the child is checked against, if the content knows its name. -/
def target? : Slot δ → Option δ
  | .accepted t => some t
  | .misplaced t => some t
  | .unexpected => none

end Slot

namespace Particle

variable {δ : Type}

/-- How many occurrences a state has to tell apart. An unbounded particle only needs to know
whether it was used; no particle is used more often than there are children. -/
def cap (total : Nat) (p : Particle δ) : Nat :=
  match p.max with
  | none => 1
  | some m => Nat.min m total

/-- Whether a particle that is not used yet can take a child of this name. -/
def admits (p : Particle δ) (name : String) : Bool :=
  p.name == name && p.max != some 0

/-- The count after one more child of this name at a particle used `k` times, if there is room. -/
def stay? (total : Nat) (p : Particle δ) (k : Nat) (name : String) : Option Nat :=
  if p.name ≠ name then none
  else
    match p.max with
    | none => some 1
    | some _ => if k < p.cap total then some (k + 1) else none

end Particle

namespace Content

variable {δ : Type}

/-! ## Ordered content -/

/-- The gains of one point between children: a list for each particle, indexed by the count. -/
abbrev Row := List (List Nat)

/-- The gain at particle `p` with `k` occurrences used. -/
def gain (row : Row) (p k : Nat) : Nat :=
  (row.getD p []).getD k 0

/-- No child is left, so nothing can be gained. -/
def lastRow (total : Nat) (particles : List (Particle δ)) : Row :=
  particles.map (fun p => List.replicate (p.cap total + 1) 0)

/-- The gain of keeping a child at the particle where it is due, from the gains after the child. -/
def stayGain (total : Nat) (p : Particle δ) (after : List Nat) (name : String) (k : Nat) : Nat :=
  match p.stay? total k name with
  | some next => 1 + after.getD next 0
  | none => 0

/-- The gains in front of a child named `name` at these particles, and the greatest gain of keeping
the child by moving on to one of them. -/
def rowBefore (total : Nat) (name : String) : List (Particle δ) → Row → Row × Nat
  | p :: ps, after :: rest =>
    let (row, ahead) := rowBefore total name ps rest
    let here := (List.range (p.cap total + 1)).map
      (fun k => Nat.max (after.getD k 0) (Nat.max (stayGain total p after name k) ahead))
    let entering := if p.admits name then 1 + after.getD 1 0 else 0
    (here :: row, Nat.max entering ahead)
  | _, _ => ([], 0)

/-- The rows in front of each child and behind the last one. -/
def rows (total : Nat) (particles : List (Particle δ)) : List String → List Row
  | [] => [lastRow total particles]
  | name :: names =>
    let later := rows total particles names
    (rowBefore total name particles (later.headD [])).1 :: later

/-- The first particle behind `p` to which a child can move on with the wanted gain. -/
def moveOn? (particles : List (Particle δ)) (after : Row) (name : String) (p target : Nat) :
    Option Nat :=
  (List.range particles.length).find? (fun j =>
    p < j && (particles[j]?.map (fun q => q.admits name)).getD false &&
      1 + gain after j 1 == target)

/-- The count at which a child stays at particle `p` with the wanted gain. -/
def stayAt? (total : Nat) (particles : List (Particle δ)) (after : Row) (name : String)
    (p k target : Nat) : Option Nat :=
  match particles[p]? with
  | some q => (q.stay? total k name).filter (fun next => 1 + gain after p next == target)
  | none => none

/-- Follows the gains from the state at particle `p` with count `k`: for each child the particle
that keeps it, staying before moving on and moving on as little as possible. -/
def follow (total : Nat) (particles : List (Particle δ)) :
    Nat → Nat → List String → List Row → List (Option Nat)
  | p, k, name :: names, before :: after :: rest =>
    let target := gain before p k
    if target = 0 then none :: names.map (fun _ => none)
    else
      match stayAt? total particles after name p k target with
      | some next => some p :: follow total particles p next names (after :: rest)
      | none =>
        match moveOn? particles after name p target with
        | some j => some j :: follow total particles j 1 names (after :: rest)
        | none => none :: follow total particles p k names (after :: rest)
  | _, _, names, _ => names.map (fun _ => none)

/-- Ordered content: for each child the particle that keeps it, so that the greatest number of
children is kept. -/
def align (particles : List (Particle δ)) (names : List String) : List (Option Nat) :=
  if particles.isEmpty then names.map (fun _ => none)
  else
    follow names.length particles 0 0 names (rows names.length particles names)

/-! ## Unordered content -/

/-- The first particle of this name with room left; `used` counts the children each one has. -/
def room? (name : String) : List (Particle δ) → List Nat → Option Nat
  | p :: ps, u :: us =>
    if p.name = name && (p.max.map (fun m => decide (u < m))).getD true then some 0
    else (room? name ps us).map (· + 1)
  | _, _ => none

/-- Unordered content: each child takes the first particle of its name with room left. -/
def fillFrom (particles : List (Particle δ)) : List Nat → List String → List (Option Nat)
  | _, [] => []
  | used, name :: names =>
    match room? name particles used with
    | some p => some p :: fillFrom particles (used.modify p (· + 1)) names
    | none => none :: fillFrom particles used names

/-- Unordered content, with no child placed yet. -/
def fill (particles : List (Particle δ)) (names : List String) : List (Option Nat) :=
  fillFrom particles (particles.map (fun _ => 0)) names

/-! ## Both -/

/-- For each child the particle that keeps it. -/
def assign (c : Content δ) (names : List String) : List (Option Nat) :=
  if c.ordered then align c.particles names else fill c.particles names

/-- The slot of a child that no particle keeps: misplaced if a particle has its name. -/
def strayed (c : Content δ) (name : String) : Slot δ :=
  match c.particles.find? (fun p => p.name == name) with
  | some p => .misplaced p.target
  | none => .unexpected

/-- The slot of a child, given the particle that keeps it. -/
def slot (c : Content δ) (name : String) (kept : Option Nat) : Slot δ :=
  match kept.bind (fun p => c.particles[p]?) with
  | some p => .accepted p.target
  | none => c.strayed name

/-- The slots of the children, in order. -/
def place (c : Content δ) (names : List String) : List (Slot δ) :=
  List.zipWith c.slot names (c.assign names)

/-- The names of the particles, each at its first occurrence. -/
def declaredNames (c : Content δ) : List String :=
  c.particles.foldl (fun seen p => if seen.contains p.name then seen else seen ++ [p.name]) []

/-- How many children of this name the content asks for. -/
def required (c : Content δ) (name : String) : Nat :=
  (c.particles.filter (fun p => p.name == name)).foldr (fun p n => p.min + n) 0

/-- The names of which children are missing, each as often as children of it are missing. -/
def missing (c : Content δ) (names : List String) : List String :=
  c.declaredNames.flatMap
    (fun name => List.replicate (c.required name - names.count name) name)

end Content

end VideoCatalog.Grammar
