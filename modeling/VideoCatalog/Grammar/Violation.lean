/-!
Violations of element-only content, one for each child that is missing, not known to its parent, or
in a position or number that its parent does not allow.
-/

namespace VideoCatalog.Grammar

/-- One violation of the content of `parent`. -/
inductive Violation where
  /-- A required child does not occur. -/
  | missing (parent child : String)
  /-- A child that the parent does not declare at all. -/
  | unexpected (parent child : String)
  /-- A declared child in a position or number that the parent does not allow. -/
  | misplaced (parent child : String)
  deriving DecidableEq

namespace Violation

/-- The element whose content is violated. -/
def parent : Violation → String
  | .missing p _ => p
  | .unexpected p _ => p
  | .misplaced p _ => p

/-- The wording of the violation. -/
def message : Violation → String
  | .missing parent child => "Element '" ++ parent ++ "': Missing child element '" ++ child ++ "'."
  | .unexpected parent child =>
    "Element '" ++ child ++ "': This element is not expected in '" ++ parent ++ "'."
  | .misplaced parent child =>
    "Element '" ++ child ++ "': This element is not allowed at this position in '" ++ parent ++
      "'."

end Violation

end VideoCatalog.Grammar
