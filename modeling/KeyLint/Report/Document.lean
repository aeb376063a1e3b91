import KeyLint.Issue
import KeyLint.Json.Printer

/-!
# Documents

The outcome of a check as one JSON value, for other programs.
-/

namespace KeyLint.Document

/-- A piece of what a message tells, as a value. -/
def ofDatum : Violation.Datum → Json
  | .text t => .str t
  | .number n => Json.ofNat n

/-- The name and the data of a finding, as members. -/
def violationMembers (v : Violation) : List (Text × Json) :=
  ("messageId".toList, .str v.id) :: v.data.map fun (name, datum) => (name, ofDatum datum)

/-- The place of an issue, as members. A file that could not be read has none. -/
def placeMembers : Issue → List (Text × Json)
  | .violation _ position _ _ =>
    [("line".toList, Json.ofNat position.line), ("column".toList, Json.ofNat position.column)]
  | .parseError .. => []

/-- An issue as a value. -/
def ofIssue (issue : Issue) : Json :=
  .object
    ([("file".toList, .str issue.file)] ++ placeMembers issue
      ++ [("severity".toList, .str issue.severity.name), ("rule".toList, .str issue.rule.name),
          ("message".toList, .str issue.message)]
      ++ ((issue.violation?.map violationMembers).getD []))

/-- The outcome of a check as a value. -/
def ofOutcome (o : Outcome) : Json :=
  .object
    [("issues".toList, .array (o.issues.map ofIssue)),
     ("summary".toList,
      .object
        [("filesChecked".toList, Json.ofNat o.filesChecked),
         ("errors".toList, Json.ofNat o.errors),
         ("warnings".toList, Json.ofNat o.warnings),
         ("parseErrors".toList, Json.ofNat o.parseErrors)])]

/-- The outcome of a check as a text, with a line feed at its end. -/
def write (o : Outcome) : Text :=
  (ofOutcome o).write ++ ['\n']

end KeyLint.Document
