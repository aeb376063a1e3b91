import KeyLint.FileSystem
import KeyLint.Glob.Basic

/-!
# Directories that a glob leads to

A glob is followed through a file system one component after the other. A component without
wildcards and sets is looked up as it is, dots too. Any other component is compared with the names
in a directory, and so never takes a slash; two stars go through all directories below.
-/

namespace KeyLint.Glob

/-- One step of a glob from a directory. -/
inductive Step where
  /-- To the entries of the directory that a glob describes. -/
  | inside (g : Glob)
  /-- To the directories at any depth below whose names a glob describes. -/
  | below (g : Glob)
  /-- To all directories at any depth below. -/
  | anyBelow
deriving Repr, DecidableEq, Inhabited

/-- A component that stands for any number of directories. -/
def isRecursive (g : Glob) : Bool :=
  g.tokens.contains .anyDirectories

/-- The steps that the components of a glob make. Two stars belong to the component after them. -/
def Step.ofComponents : List Glob → List Step
  | [] => []
  | g :: gs =>
    if isRecursive g then
      match ofComponents gs with
      | [] => [.anyBelow]
      | .inside next :: steps => .below next :: steps
      | steps => steps
    else .inside g :: ofComponents gs

/-- The components of a glob, each a glob of its own. A slash at the end starts no component. -/
def components (t : Text) : Except Error (List Glob) :=
  let pieces := Path.pieces (if Path.isAbsolute t then t.tail else t)
  let pieces := if pieces.getLast? = some [] then pieces.dropLast else pieces
  pieces.mapM parse

/-- The path that names in the directory `path` are joined to: a dot is left out. -/
def baseOf (path : Text) : Text :=
  if Path.components path = [.current] then [] else path

/-- The dots that a component describes if it starts with one itself. -/
def dots (g : Glob) : List Text :=
  if g.tokens.head? = some (.char '.') then [['.'], ['.', '.']].filter g.accepts else []

/-- The paths one step inside the directory `path`. -/
def inside (fs : FileSystem) (g : Glob) (path : Text) : List Text :=
  match g.literal? with
  | some name =>
    let next := Path.join (baseOf path) name
    let found :=
      if name = ['.'] ∨ name = ['.', '.'] then fs.hasDirectory path else fs.has next
    if found then [next] else []
  | none =>
    match fs.get path with
    | .ok (.directory entries) =>
      ((entries.map (·.1)).filter g.accepts).map (Path.join (baseOf path))
        ++ (dots g).map (Path.join path)
    | _ => []

/-- The paths of the directories at any depth below the directory `path`. -/
def descendants (fs : FileSystem) (path : Text) : List Text :=
  match fs.get path with
  | .ok tree => tree.directories (baseOf path)
  | .error _ => []

/-- The paths that steps lead to from the directory `path`. -/
def follow (fs : FileSystem) : List Step → Text → List Text
  | [], path => [path]
  | .inside g :: steps, path => (inside fs g path).flatMap (follow fs steps)
  | .below g :: steps, path =>
    ((descendants fs path).filter fun p => ((Path.fileName? p).map g.accepts).getD false).flatMap
      (follow fs steps)
  | .anyBelow :: steps, path => (descendants fs path).flatMap (follow fs steps)

/-- The directories that a glob leads to. -/
def directories (fs : FileSystem) (t : Text) : Except Error (List Text) :=
  match parse t with
  | .error e => .error e
  | .ok _ =>
    match components t with
    | .error e => .error e
    | .ok gs =>
      let start := if Path.isAbsolute t then ['/'] else ['.']
      .ok ((follow fs (Step.ofComponents gs) start).filter fs.hasDirectory)

end KeyLint.Glob
