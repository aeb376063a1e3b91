import KeyLint.Text.Basic

/-!
# Paths

A path is a text with slashes between its pieces. Paths are joined and cut as texts, so `./` and
`src` give `./src`; they are compared by their components, where a dot counts only at the beginning.
-/

namespace KeyLint

/-- A component of a path. -/
inductive Component where
  | root
  | current
  | parent
  | name (t : Text)
deriving Repr, DecidableEq, Inhabited

namespace Path

/-- A path that starts at the root. -/
def isAbsolute (p : Text) : Bool :=
  p.head? = some '/'

/-- The path `p` as seen from the directory `base`. -/
def join (base p : Text) : Text :=
  if isAbsolute p then p
  else if base.isEmpty || base.getLast? = some '/' then base ++ p
  else base ++ ['/'] ++ p

/-- The pieces of a path between its slashes. -/
def pieces (p : Text) : List Text :=
  Text.splitOn '/' p

/-- A piece that does not count after the first one. -/
def isIdle (piece : Text) : Bool :=
  piece.isEmpty || piece = ['.']

/-- The components of pieces that are not the first one. -/
def componentsOf (pieces : List Text) : List Component :=
  (pieces.filter fun piece => !isIdle piece).map fun piece =>
    if piece = ['.', '.'] then .parent else .name piece

/-- The components of a path. -/
def components (p : Text) : List Component :=
  match pieces p with
  | [] => []
  | first :: rest =>
    if isAbsolute p then .root :: componentsOf rest
    else if first = ['.'] then .current :: componentsOf rest
    else componentsOf (first :: rest)

/-- The components of `base` are the first components of `p`. -/
def startsWith (p base : Text) : Bool :=
  (components base).isPrefixOf (components p)

/-- The name of the file or directory that a path leads to, if the path ends in a name. -/
def fileName? (p : Text) : Option Text :=
  match (components p).getLast? with
  | some (.name t) => some t
  | _ => none

/-- A path that has no components but dots. -/
def isCurrent (p : Text) : Bool :=
  (components p).all (· = .current)

/-! ## Cutting -/

/-- The pieces of a path, the last first, without the idle ones at its end. -/
def dropIdleEnd : (backwards : List Text) → List Text
  | piece :: before :: pieces =>
    if isIdle piece then dropIdleEnd (before :: pieces) else piece :: before :: pieces
  | pieces => pieces

/-- The path with the given pieces, the last first. -/
def ofPieces (backwards : List Text) : Text :=
  if backwards = [[]] then ['/'] else Text.join ['/'] backwards.reverse

/-- The paths that are left when components are cut off the end of a path with the given pieces, the
last first. The root is never cut off. -/
def parents : (backwards : List Text) → List Text
  | [] => []
  | [first] => if first.isEmpty then [] else [[]]
  | piece :: before =>
    if isIdle piece then parents before else ofPieces (dropIdleEnd before) :: parents before

/-- A path and what is left of it when components are cut off its end, one after the other. -/
def ancestors (p : Text) : List Text :=
  p :: parents (pieces p).reverse

/-- The path without a dot at its beginning, and then also without idle pieces at its two ends. -/
def dropCurrent (p : Text) : Text :=
  match pieces p with
  | ['.'] :: rest =>
    Text.join ['/'] (((rest.dropWhile isIdle).reverse.dropWhile isIdle).reverse)
  | _ => p

end Path

end KeyLint
