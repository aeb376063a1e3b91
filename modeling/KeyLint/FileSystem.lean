import KeyLint.Path

/-!
# File systems

Directories and files as a tree, and the directory that relative paths start from. A path is
followed piece by piece, so that two dots lead to the directory that really holds the one before
them.
-/

namespace KeyLint

/-- A file or a directory. A file whose bytes are not UTF-8 has no text. -/
inductive FileTree where
  | file (text : Option Text)
  | directory (entries : List (Text × FileTree))
deriving Repr, Inhabited

namespace FileTree

/-- The entry of a directory with a name. -/
def entry? (name : Text) : FileTree → Option FileTree
  | .file _ => none
  | .directory entries => entries.lookup name

/-- What is found by following names. -/
def find? : List Text → FileTree → Option FileTree
  | [], tree => some tree
  | name :: names, tree => (tree.entry? name).bind (find? names)

/-- A directory. -/
def isDirectory : FileTree → Bool
  | .file _ => false
  | .directory _ => true

/-- The entries of a directory; a file has none. -/
def entries : FileTree → List (Text × FileTree)
  | .file _ => []
  | .directory entries => entries

/-- The entries with `tree` under a name. -/
def setEntry (name : Text) (tree : FileTree) : List (Text × FileTree) → List (Text × FileTree)
  | [] => [(name, tree)]
  | (other, t) :: entries =>
    if other = name then (name, tree) :: entries else (other, t) :: setEntry name tree entries

/-- The tree with `new` where names lead to, and with the directories on the way. -/
def insert (new : FileTree) : List Text → FileTree → FileTree
  | [], _ => new
  | name :: names, tree =>
    let below := (tree.entry? name).getD (.directory [])
    .directory (setEntry name (insert new names below) tree.entries)

/-- The tree without what names lead to. -/
def erase : List Text → FileTree → FileTree
  | [], _ => .directory []
  | [name], tree => .directory (tree.entries.filter fun entry => entry.1 ≠ name)
  | name :: names, tree =>
    match tree.entry? name with
    | none => tree
    | some below => .directory (setEntry name (erase names below) tree.entries)

mutual

/-- The paths of the files of a tree, where the tree itself has the path `path`. -/
def files (path : Text) : FileTree → List Text
  | .file _ => [path]
  | .directory entries => filesIn path entries

/-- The paths of the files of entries of the directory `path`. -/
def filesIn (path : Text) : List (Text × FileTree) → List Text
  | [] => []
  | (name, tree) :: entries => files (Path.join path name) tree ++ filesIn path entries

end

mutual

/-- The paths of the directories strictly inside a tree, where the tree itself has the path `path`.
-/
def directories (path : Text) : FileTree → List Text
  | .file _ => []
  | .directory entries => directoriesIn path entries

/-- The paths of the directories among and inside the entries of the directory `path`. -/
def directoriesIn (path : Text) : List (Text × FileTree) → List Text
  | [] => []
  | (_, .file _) :: entries => directoriesIn path entries
  | (name, .directory below) :: entries =>
    Path.join path name :: directoriesIn (Path.join path name) below ++ directoriesIn path entries

end

end FileTree

/-- A tree of files and the names that lead to the directory where relative paths start. -/
structure FileSystem where
  root : FileTree
  workingDirectory : List Text
deriving Repr, Inhabited

/-- Why a path leads nowhere. -/
inductive AccessError where
  | missing
  | notDirectory
deriving Repr, DecidableEq, Inhabited

/-- What is said about a path that leads nowhere. -/
def AccessError.message : AccessError → Text
  | .missing => "No such file or directory (os error 2)".toList
  | .notDirectory => "Not a directory (os error 20)".toList

namespace FileSystem

/-- One step from the place that the names `here` lead to. -/
def step (fs : FileSystem) (here : List Text) (piece : Text) : Except AccessError (List Text) :=
  match fs.root.find? here with
  | none => .error .missing
  | some (.file _) => .error .notDirectory
  | some (.directory entries) =>
    if Path.isIdle piece then .ok here
    else if piece = ['.', '.'] then .ok here.dropLast
    else if (entries.lookup piece).isSome then .ok (here ++ [piece])
    else .error .missing

/-- The names that a path leads to. -/
def locate (fs : FileSystem) (path : Text) : Except AccessError (List Text) :=
  if path.isEmpty then .error .missing
  else
    (Path.pieces path).foldlM fs.step (if Path.isAbsolute path then [] else fs.workingDirectory)

/-- What a path leads to. -/
def get (fs : FileSystem) (path : Text) : Except AccessError FileTree :=
  match fs.locate path with
  | .error e => .error e
  | .ok names =>
    match fs.root.find? names with
    | none => .error .missing
    | some tree => .ok tree

/-- A path leads to a file or a directory. -/
def has (fs : FileSystem) (path : Text) : Bool :=
  (fs.get path).toBool

/-- A path leads to a directory. -/
def hasDirectory (fs : FileSystem) (path : Text) : Bool :=
  match fs.get path with
  | .ok tree => tree.isDirectory
  | .error _ => false

/-- The text of the file that a path leads to. -/
def read? (fs : FileSystem) (path : Text) : Option Text :=
  match fs.get path with
  | .ok (.file text) => text
  | _ => none

/-! ## Changes -/

/-- The names that a path spells, whether anything is there or not. -/
def names (fs : FileSystem) (path : Text) : List Text :=
  (Path.componentsOf (Path.pieces path)).foldl
    (fun here component =>
      match component with
      | .name t => here ++ [t]
      | .parent => here.dropLast
      | _ => here)
    (if Path.isAbsolute path then [] else fs.workingDirectory)

/-- The file system with a file or directory at a path, and with the directories on the way. -/
def put (fs : FileSystem) (path : Text) (tree : FileTree) : FileSystem :=
  { fs with root := FileTree.insert tree (fs.names path) fs.root }

/-- The file system with a file that holds a text. -/
def write (fs : FileSystem) (path text : Text) : FileSystem :=
  fs.put path (.file (some text))

/-- The file system with a directory at a path, which is empty if it is new. -/
def makeDirectory (fs : FileSystem) (path : Text) : FileSystem :=
  if fs.hasDirectory path then fs else fs.put path (.directory [])

/-- The file system without what a path leads to. -/
def remove (fs : FileSystem) (path : Text) : FileSystem :=
  { fs with root := fs.root.erase (fs.names path) }

end FileSystem

end KeyLint
