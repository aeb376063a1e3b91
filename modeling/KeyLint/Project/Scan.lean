import KeyLint.Glob.Directories
import KeyLint.Report.Listing

/-!
# Finding sources

The sources of a project are the scripts and templates below its include roots, without those that
are ignored. Includes and ignores are paths, or globs if they have wildcards.
-/

namespace KeyLint

/-- Something about a project that a scan cannot use. -/
inductive ScanNotice where
  | badIgnore (glob : Text) (error : Glob.Error)
  | missingInclude (path : Text)
  | badInclude (glob : Text) (error : Glob.Error)
  | noAccess (path : Text) (error : AccessError)
deriving Repr, DecidableEq, Inhabited

/-- What is said about a notice. -/
def ScanNotice.message : ScanNotice → Text
  | .badIgnore glob error =>
    "Invalid ignore pattern '".toList ++ glob ++ "': ".toList ++ error.message
  | .missingInclude path => "Include path does not exist: ".toList ++ path
  | .badInclude glob error =>
    "Invalid glob pattern '".toList ++ glob ++ "': ".toList ++ error.message
  | .noAccess path error =>
    "Cannot access path: IO error for operation on ".toList ++ path ++ ": ".toList
      ++ error.message

/-! ## Ignores -/

/-- What is ignored: everything under some paths, and what some globs describe. -/
structure IgnoreSet where
  paths : List Text := []
  globs : List Glob := []
deriving Repr, DecidableEq, Inhabited

namespace IgnoreSet

/-- What is ignored in the directory `base`, and which globs cannot be read. -/
def ofList (base : Text) : List Text → IgnoreSet × List ScanNotice
  | [] => ({}, [])
  | t :: ts =>
    let (set, notices) := ofList base ts
    if !Glob.isWildcard t then ({ set with paths := Path.join base t :: set.paths }, notices)
    else
      match Glob.parse t with
      | .ok glob => ({ set with globs := glob :: set.globs }, notices)
      | .error e => (set, .badIgnore t e :: notices)

/-- A path is ignored. -/
def ignores (set : IgnoreSet) (path : Text) : Bool :=
  set.paths.any (Path.startsWith path) || set.globs.any (·.accepts path)

end IgnoreSet

/-! ## Includes -/

/-- The roots that one include stands for, or why it stands for none. -/
def includeRoots (fs : FileSystem) (base t : Text) : Except ScanNotice (List Text) :=
  let full := Path.join base t
  if !Glob.isWildcard t then
    if fs.has full then .ok [full] else .error (.missingInclude full)
  else
    match Glob.directories fs full with
    | .ok paths => .ok paths
    | .error e => .error (.badInclude t e)

/-- The roots that includes stand for, and what is wrong with some of them. The directory `base` is
the root if there are no includes. -/
def scanRoots (fs : FileSystem) (base : Text) (includes : List Text) :
    List Text × List ScanNotice :=
  if includes.isEmpty then ([base], [])
  else
    let found := includes.map (includeRoots fs base)
    (found.flatMap fun
      | .ok paths => paths
      | .error _ => [],
     found.filterMap fun
      | .ok _ => none
      | .error notice => some notice)

/-! ## Sources -/

/-- A script that is not only declarations, or a template, by its name. -/
def isSourceName (name : Text) : Bool :=
  ((Text.before? ".ts".toList name).isSome && (Text.before? ".d.ts".toList name).isNone)
    || (Text.before? ".html".toList name).isSome

/-- The path leads to a source by its name. -/
def isSourcePath (path : Text) : Bool :=
  ((Path.fileName? path).map isSourceName).getD false

/-- The files below a root, or why there are none. -/
def filesBelow (fs : FileSystem) (root : Text) : Except ScanNotice (List Text) :=
  match fs.get root with
  | .ok tree => .ok (tree.files root)
  | .error e => .error (.noAccess root e)

/-- What a scan found. -/
structure Scan where
  /-- The sources, each path once. -/
  files : List Text
  /-- The number of roots that could not be walked. -/
  skipped : Nat
  notices : List ScanNotice
deriving Repr, DecidableEq, Inhabited

/-- Finds the sources of the directory `base`. -/
def scan (fs : FileSystem) (base : Text) (includes ignores : List Text) : Scan :=
  let (ignored, ignoreNotices) := IgnoreSet.ofList base ignores
  let (roots, includeNotices) := scanRoots fs base includes
  let walked := roots.map (filesBelow fs)
  let files := walked.flatMap fun
    | .ok paths => paths
    | .error _ => []
  let walkNotices := walked.filterMap fun
    | .ok _ => none
    | .error notice => some notice
  { files := (files.filter fun path => !ignored.ignores path && isSourcePath path).eraseDups
    skipped := walkNotices.length
    notices := ignoreNotices ++ includeNotices ++ walkNotices }

/-- The lines about a scan for a reader who wants to know everything. -/
def Scan.warnings (s : Scan) : List Styled :=
  s.notices.map fun notice =>
    [Listing.warningLabel, Styled.plain ([' '] ++ notice.message)]

end KeyLint
