import VideoCatalog.Text.Blank
import VideoCatalog.Text.Raw

/-!
Paths as bytes. A path is read as a row of components: repeated and trailing slashes and the
component `.` except at the very front mean nothing. Paths compare component by component, and the
kinds of components come in a fixed order before their names count.
-/

namespace VideoCatalog.Files

/-- One component of a path, in increasing order of kinds. -/
inductive Component where
  | root
  | current
  | parent
  | name (s : RawText)
  deriving DecidableEq

namespace Component

/-- The place of the kind of a component in the order of kinds. -/
def rank : Component → Nat
  | .root => 0
  | .current => 1
  | .parent => 2
  | .name _ => 3

/-- The bytes of the component if it is a name. -/
def bytes : Component → List UInt8
  | .name s => s.bytes
  | _ => []

/-- Whether one component comes before or at the place of another. -/
def le (a b : Component) : Bool :=
  if a.rank = b.rank then !(b.bytes < a.bytes) else a.rank < b.rank

end Component

namespace Path

open RawText (dot slash)

/-- The pieces between the slashes. -/
def pieces (path : RawText) : List RawText :=
  (Text.splitList slash path.bytes).map RawText.mk

/-- The component that a piece is, if it means anything. -/
def component? (piece : RawText) : Option Component :=
  if piece = "" || piece = "." then none
  else if piece = ".." then some .parent
  else some (.name piece)

/-- Whether a path begins at the root. -/
def isAbsolute (path : RawText) : Bool :=
  path.bytes.head? = some slash

/-- The components of a path. -/
def components (path : RawText) : List Component :=
  let inner := (pieces path).filterMap component?
  if isAbsolute path then .root :: inner
  else if (pieces path).head? = some (RawText.ofString ".") then .current :: inner
  else inner

/-- Whether one row of components comes before or at the place of another. -/
def componentsLe : List Component → List Component → Bool
  | [], _ => true
  | _ :: _, [] => false
  | a :: as, b :: bs => if a = b then componentsLe as bs else a.le b

/-- Whether one path comes before or at the place of another. -/
def le (p q : RawText) : Bool :=
  componentsLe (components p) (components q)

/-- A path with one more component behind it. -/
def join (path name : RawText) : RawText :=
  if isAbsolute name then name
  else if path = "" then name
  else if path.bytes.getLast? = some slash then ⟨path.bytes ++ name.bytes⟩
  else ⟨path.bytes ++ slash :: name.bytes⟩

/-- The name of the file that a path leads to. -/
def fileName? (path : RawText) : Option RawText :=
  match (components path).getLast? with
  | some (.name s) => some s
  | _ => none

/-- What stands behind the last dot of a file name, unless the dot begins the name. -/
def extensionOf? (name : RawText) : Option RawText :=
  let behind := name.bytes.reverse.takeWhile (fun b => b ≠ dot)
  match name.bytes.reverse.drop behind.length with
  | [] => none
  | [_] => none
  | _ => some ⟨behind.reverse⟩

/-- The extension of the file that a path leads to, if it is text. -/
def extension? (path : RawText) : Option String :=
  ((fileName? path).bind extensionOf?).bind RawText.text?

/-- The bytes of a path without the slashes, and the pieces that mean nothing, at its end. -/
def withoutTail (path : RawText) : Nat → RawText
  | 0 => path
  | fuel + 1 =>
    if path.bytes.getLast? = some slash && path ≠ "/" then
      withoutTail ⟨path.bytes.dropLast⟩ fuel
    else if path.bytes.length > 2 && path.bytes.reverse.take 2 = [dot, slash] then
      withoutTail ⟨path.bytes.dropLast⟩ fuel
    else path

/-- The path of the directory that holds what a path leads to; empty for a bare name. -/
def parent? (path : RawText) : Option RawText :=
  match (components path).getLast? with
  | none => none
  | some .root => none
  | some _ =>
    let trimmed := withoutTail path path.bytes.length
    let kept := (trimmed.bytes.reverse.dropWhile (fun b => b ≠ slash)).reverse
    some (withoutTail ⟨kept⟩ path.bytes.length)

end Path

end VideoCatalog.Files
