import VideoCatalog.Grammar.Model

/-!
# The account of one element

`DeclaredContent.violations` finds the violations of one element by running down its children and
their slots side by side, and then its particles. Here the same list is written without either
run: one violation for each child that is out of place, in the order of the children, and behind
them, for each declared name at its first occurrence, as many missing children as the least
numbers of its particles together exceed the children of that name. `violations_eq_account` says
that the two agree, for every content and every list of names.

The slots themselves are those of `Content.place`; which children it keeps is not in question here.
-/

namespace VideoCatalog.Grammar

/-! ## Children out of place -/

/-- The violation that a child of this name makes in a slot. -/
def Slot.violation? (parent name : String) : Slot Nat → Option Violation
  | .accepted _ => none
  | .misplaced _ => some (.misplaced parent name)
  | .unexpected => some (.unexpected parent name)

theorem childViolations_eq_filterMap (parent : String) :
    ∀ (names : List String) (slots : List (Slot Nat)),
      childViolations parent names slots =
        (names.zip slots).filterMap (fun entry => entry.2.violation? parent entry.1)
  | [], _ => by simp [childViolations]
  | _ :: _, [] => by simp [childViolations]
  | name :: names, slot :: slots => by
      have ih := childViolations_eq_filterMap parent names slots
      cases slot <;> simp [childViolations, Slot.violation?, ih]

/-! ## Missing children -/

namespace Content

variable {δ : Type}

/-- By how much the children of this name fall short of what the particles of that name ask for,
taken together. -/
def shortfall (c : Content δ) (names : List String) (name : String) : Nat :=
  c.required name - names.count name

/-- The names seen so far stay in front; behind them comes each new name once. -/
theorem foldl_seen_eq (particles : List (Particle δ)) :
    ∀ (seen : List String),
      particles.foldl
          (fun seen p => if seen.contains p.name then seen else seen ++ [p.name]) seen =
        seen ++ ((particles.map Particle.name).filter (fun n => !seen.contains n)).eraseDups := by
  induction particles with
  | nil => intro seen; simp
  | cons p ps ih =>
      intro seen
      rw [List.foldl_cons, List.map_cons, ih]
      by_cases h : p.name ∈ seen
      · simp [h]
      · have later : ∀ n : String,
            (!(seen ++ [p.name]).contains n) = (!(n == p.name) && !seen.contains n) := by
          intro n
          by_cases hn : n = p.name <;> simp [hn]
        simp only [List.contains_eq_mem, h, decide_false, Bool.false_eq_true, if_false,
          Bool.not_false, List.filter_cons_of_pos, List.eraseDups_cons, List.filter_filter]
        simp only [← List.contains_eq_mem, later]
        simp

/-- The declared names are those of the particles, each at its first occurrence. -/
theorem declaredNames_eq_eraseDups (c : Content δ) :
    c.declaredNames = (c.particles.map Particle.name).eraseDups := by
  rw [declaredNames, foldl_seen_eq, List.nil_append]
  exact congrArg List.eraseDups (List.filter_eq_self.mpr (fun _ _ => rfl))

theorem missing_eq_flatMap (c : Content δ) (names : List String) :
    c.missing names =
      (c.particles.map Particle.name).eraseDups.flatMap
        (fun name => List.replicate (c.shortfall names name) name) := by
  simp only [missing, declaredNames_eq_eraseDups, shortfall]

end Content

/-! ## Both -/

/-- The violations of one element: its children out of place, in their order, and then what is
missing of each declared name, in the order of declaration. -/
def DeclaredContent.account (c : DeclaredContent) (parent : String) (names : List String) :
    List Violation :=
  (names.zip (c.place names)).filterMap (fun entry => entry.2.violation? parent entry.1) ++
    (c.particles.map Particle.name).eraseDups.flatMap
      (fun name => List.replicate (c.shortfall names name) (.missing parent name))

theorem violations_eq_account (c : DeclaredContent) (parent : String) (names : List String) :
    c.violations parent names = c.account parent names := by
  rw [DeclaredContent.violations, DeclaredContent.account, childViolations_eq_filterMap,
    Content.missing_eq_flatMap, List.map_flatMap]
  simp only [List.map_replicate]

/-- A missing child, a misplaced one and an unknown one, each once. -/
example :
    DeclaredContent.account
        { ordered := true, particles := [⟨1, "a", 1, some 1⟩, ⟨2, "b", 2, none⟩] } "pair"
        ["b", "a", "c"] =
      [.misplaced "pair" "a", .unexpected "pair" "c", .missing "pair" "b"] := by
  rfl

end VideoCatalog.Grammar
