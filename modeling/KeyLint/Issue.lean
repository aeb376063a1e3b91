import KeyLint.Text.Lines
import KeyLint.Violation

/-!
# Issues

An issue is a finding at a place of a file, or a file that could not be read. Issues are listed by
file, then by place, then by rule, then by message; a file that could not be read comes before any
place.
-/

namespace KeyLint

/-- What is reported about a file. -/
inductive Issue where
  /-- A finding, with the line that it stands in. -/
  | violation (file : Text) (position : Position) (sourceLine : Text) (violation : Violation)
  /-- A file that could not be read. -/
  | parseError (file : Text) (error : Text)
deriving Repr, DecidableEq, Inhabited

namespace Issue

/-- The file of an issue. -/
def file : Issue → Text
  | .violation file .. => file
  | .parseError file _ => file

/-- The line and column by which issues of one file are ordered. -/
def place : Issue → Position
  | .violation _ position _ _ => position
  | .parseError .. => ⟨0, 0⟩

/-- The finding of an issue, if it is one. -/
def violation? : Issue → Option Violation
  | .violation _ _ _ v => some v
  | .parseError .. => none

/-- The rule that an issue breaks. -/
def rule : Issue → Rule
  | .violation _ _ _ v => v.rule
  | .parseError .. => .parseError

/-- How serious an issue is. -/
def severity : Issue → Severity
  | .violation _ _ _ v => v.severity
  | .parseError .. => .error

/-- What is said about an issue. -/
def message : Issue → Text
  | .violation _ _ _ v => v.message
  | .parseError _ error => error

/-- An issue about a file that could not be read. -/
def isParseError : Issue → Bool
  | .violation .. => false
  | .parseError .. => true

/-- The issue that a finding in a source makes. -/
def ofDiagnostic (file source : Text) (d : Diagnostic) : Issue :=
  let position := Text.position source d.span.start
  .violation file position (Text.line source position.line) d.violation

/-! ## Order -/

/-- The order of issues in a report. Different issues can have the same place in it. -/
def cmp (a b : Issue) : Ordering :=
  (Text.cmp a.file b.file).then <|
  (compare a.place.line b.place.line).then <|
  (compare a.place.column b.place.column).then <|
  (compare a.rule.rank b.rule.rank).then <|
  Text.cmp a.message b.message

/-- `a` may stand before `b`. -/
def le (a b : Issue) : Bool :=
  (cmp a b).isLE

/-- Issues in order. Those with the same place keep the order they had. -/
def sort (issues : List Issue) : List Issue :=
  issues.mergeSort le

end Issue

/-- The issues of a check, in order, and the number of files that were checked. -/
structure Outcome where
  issues : List Issue
  filesChecked : Nat
deriving Repr, DecidableEq, Inhabited

namespace Outcome

/-- The outcome of a check that found `issues` in any order. -/
def ofIssues (issues : List Issue) (filesChecked : Nat) : Outcome :=
  ⟨Issue.sort issues, filesChecked⟩

/-- The number of issues that are errors. -/
def errors (o : Outcome) : Nat :=
  o.issues.countP fun issue => issue.severity = .error

/-- The number of issues that are warnings. -/
def warnings (o : Outcome) : Nat :=
  o.issues.countP fun issue => issue.severity = .warning

/-- The number of files that could not be read. -/
def parseErrors (o : Outcome) : Nat :=
  o.issues.countP Issue.isParseError

end Outcome

end KeyLint
