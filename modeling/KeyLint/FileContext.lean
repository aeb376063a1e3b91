import KeyLint.Options
import KeyLint.Text.Classes

/-!
# File contexts

A file's name decides which translation keys it owns: `sign-in.component.ts` owns the keys under
`signIn`, and `employee-status.service.ts` those under `services.employeeStatus`. A file whose name
has none of the known endings has no context and is not checked.
-/

namespace KeyLint

/-- What a file declares. -/
inductive FileKind where
  | component
  | service
  | pipe
  | directive
deriving Repr, DecidableEq, Inhabited

namespace FileKind

/-- The name of a kind. -/
def name : FileKind → Text
  | .component => "component".toList
  | .service => "service".toList
  | .pipe => "pipe".toList
  | .directive => "directive".toList

/-- The first segment of all keys of a kind; components have none. -/
def keySpace? : FileKind → Option Text
  | .component => none
  | .service => some "services".toList
  | .pipe => some "pipes".toList
  | .directive => some "directives".toList

/-- The number of segments of every key of a kind. -/
def keyParts : FileKind → Nat
  | .component => 2
  | _ => 3

/-- A well-formed key, to be shown in messages. -/
def sampleKey : FileKind → Text
  | .component => "signIn.warningAccountLockSoon".toList
  | _ => "services.warningAccountLockSoon.example".toList

/-- The endings of file names, with the kinds they tell. -/
def endings : List (Text × FileKind) :=
  [(".component.ts".toList, .component), (".component.html".toList, .component),
   (".service.ts".toList, .service), (".pipe.ts".toList, .pipe),
   (".directive.ts".toList, .directive)]

/-- The endings of the file names of pages. -/
def pageEndings : List (Text × FileKind) :=
  [(".page.ts".toList, .component), (".page.html".toList, .component)]

end FileKind

/-- What the keys of a file start with, and the kind of the file. -/
structure FileContext where
  keyPrefix : Text
  kind : FileKind
deriving Repr, DecidableEq, Inhabited

namespace FileContext

/-- The part of a file name after its last slash or backslash. -/
def baseName (file : Text) : Text :=
  Text.afterLast (fun c => c = '/' || c = '\\') file

/-- Splits a base name into its stem and the kind that its ending tells. -/
def splitKind? (recognizePages : Bool) (base : Text) : Option (Text × FileKind) :=
  let endings :=
    if recognizePages then FileKind.endings ++ FileKind.pageEndings else FileKind.endings
  endings.findSome? fun (ending, kind) => (Text.before? ending base).map fun stem => (stem, kind)

/-- The stem after the first of the given beginnings that it has; empty beginnings do not count. -/
def stripOne? (starts : List Text) (stem : Text) : Option Text :=
  (starts.filter fun start => !start.isEmpty).findSome? fun start => Text.after? start stem

theorem length_lt_of_stripOne?_eq_some {starts : List Text} {stem rest : Text}
    (h : stripOne? starts stem = some rest) : rest.length < stem.length := by
  obtain ⟨start, hmem, hrest⟩ := List.exists_of_findSome?_eq_some h
  have hne : start ≠ [] := by
    have := (List.mem_filter.mp hmem).2
    simpa using this
  exact Text.length_lt_of_after?_eq_some hne hrest

/-- The stem without any of the given beginnings, however many of them it has. -/
def strip (starts : List Text) (stem : Text) : Text :=
  match _h : stripOne? starts stem with
  | some rest => strip starts rest
  | none => stem
termination_by stem.length
decreasing_by exact length_lt_of_stripOne?_eq_some _h

/-- A small ASCII letter. -/
def isSmallLetter (c : Char) : Bool :=
  'a' ≤ c && c ≤ 'z'

/-- Each hyphen with a small letter after it becomes the capital of that letter. -/
def camelCase : Text → Text
  | [] => []
  | [c] => [c]
  | c :: d :: cs =>
    if c = '-' && isSmallLetter d then Text.toCapitalAscii d :: camelCase cs
    else c :: camelCase (d :: cs)

/-- The context of a file, from its name. -/
def ofFile? (options : NamingOptions) (file : Text) : Option FileContext :=
  match splitKind? options.recognizePages (baseName file) with
  | none => none
  | some (stem, kind) =>
    let stem := strip options.stripFilePrefixes stem
    if stem.isEmpty then none
    else
      let base := camelCase stem
      match kind.keySpace? with
      | some space => some ⟨space ++ '.' :: base, kind⟩
      | none => some ⟨base, kind⟩

end FileContext

/-- The endings of the names of test files. -/
def testEndings : List Text :=
  [".spec.js".toList, ".spec.ts".toList, ".test.js".toList, ".test.ts".toList]

/-- A file name that says that the file holds tests. -/
def isTestFile (file : Text) : Bool :=
  testEndings.any fun ending => (Text.before? ending file).isSome

end KeyLint
