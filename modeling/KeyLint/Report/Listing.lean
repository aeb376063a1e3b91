import KeyLint.Issue
import KeyLint.Report.Style

/-!
# Listings

Issues for a reader at a terminal. Each issue has a line that says what is wrong and a line that
says where; a finding also shows its source line, with a caret below the column. A gutter with the
line number stands before the source, equally wide for all issues of a listing. A listing ends before
a caret that stands too far to the right.
-/

namespace KeyLint.Listing

open Styled

/-- The mark of a check that found nothing. -/
def successMark : Text := "✓".toList

/-- The mark of a check that found something. -/
def failureMark : Text := "✘".toList

/-- The end of a line. -/
def lineEnd : Run := plain ['\n']

/-- The colour of a severity. -/
def colorOf : Severity → Color
  | .error => .red
  | .warning => .yellow

/-! ## Issues -/

/-- The width of the gutter: as many columns as the largest line number has digits. -/
def gutterWidth (issues : List Issue) : Nat :=
  let lines := issues.filterMap fun
    | .violation _ position _ _ => some position.line
    | .parseError .. => none
  match lines.max? with
  | none => 1
  | some line => (Text.ofNat line).length

/-- The bar at the right of the gutter. -/
def bar : Run := inColor .blue ['|']

/-- A gutter without a line number, and its bar. -/
def blankGutter (gutter : Nat) : Styled :=
  [plain (Text.alignRight gutter [] ++ [' ']), bar]

/-- What is wrong. -/
def headline (issue : Issue) : Styled :=
  [inBold (colorOf issue.severity) issue.severity.name,
   plain (": ".toList ++ issue.message ++ "  ".toList),
   inDimmed .cyan issue.rule.name, lineEnd]

/-- Where it is wrong. -/
def location (issue : Issue) : Styled :=
  let place :=
    if issue.place.line = 0 then []
    else
      ":".toList ++ Text.ofNat issue.place.line ++ ":".toList ++ Text.ofNat issue.place.column
  [plain "  ".toList, inColor .blue "-->".toList,
   plain ([' '] ++ issue.file ++ place), lineEnd]

/-- A source line in its gutter. -/
def numbered (gutter : Nat) (position : Position) (sourceLine : Text) : Styled :=
  blankGutter gutter ++ [lineEnd]
    ++ [inColor .blue (Text.alignRight gutter (Text.ofNat position.line)), plain [' '], bar,
        plain ([' '] ++ sourceLine), lineEnd]

/-- The greatest number of columns that a text can be padded to: what fits in 16 bits. -/
def maxPadding : Nat := 0xffff

/-- How many columns stand before a position in its line, for a measure of texts. -/
def indentation (width : Text → Nat) (position : Position) (sourceLine : Text) : Nat :=
  width (sourceLine.take (position.column - 1))

/-- A caret below a column, unless it stands too far to the right to be printed. -/
def caret (gutter : Nat) (severity : Severity) (column : Nat) : Printed :=
  if column ≤ maxPadding then
    .all (blankGutter gutter
      ++ [plain ([' '] ++ Text.alignRight column []), inColor (colorOf severity) ['^'], lineEnd])
  else .stopped

/-- A source line in its gutter, with a caret below a position. -/
def excerpt (width : Text → Nat) (gutter : Nat) (severity : Severity) (position : Position)
    (sourceLine : Text) : Printed :=
  .all (numbered gutter position sourceLine)
    ++ caret gutter severity (indentation width position sourceLine)

/-- An issue, with an empty line after it. -/
def entry (width : Text → Nat) (gutter : Nat) (issue : Issue) : Printed :=
  .all (headline issue ++ location issue)
    ++ (match issue with
      | .violation _ position sourceLine _ => excerpt width gutter issue.severity position sourceLine
      | .parseError .. => {})
    ++ .all [lineEnd]

/-! ## Whole listings -/

/-- How many problems there are. -/
def summary (issues : List Issue) : Styled :=
  let errors := issues.countP fun issue => issue.severity = .error
  let warnings := issues.countP fun issue => issue.severity = .warning
  let problems := errors + warnings
  [inColor .red failureMark,
   plain ([' '] ++ Text.ofNat problems ++ [' ']
     ++ Text.counted problems "problem".toList "problems".toList ++ " (".toList
     ++ Text.ofNat errors ++ [' ']),
   inColor .red (Text.counted errors "error".toList "errors".toList),
   plain (", ".toList ++ Text.ofNat warnings ++ [' ']),
   inColor .yellow (Text.counted warnings "warning".toList "warnings".toList),
   plain ")\n".toList]

/-- All issues and how many there are; nothing if there are none. -/
def report (width : Text → Nat) (issues : List Issue) : Printed :=
  if issues.isEmpty then {}
  else .concat (issues.map (entry width (gutterWidth issues))) ++ .all (summary issues)

/-- What is said if a check found nothing. -/
def success (files : Nat) : Styled :=
  [inColor .green successMark, plain [' '],
   inColor .green ("Checked ".toList ++ Text.ofNat files ++ " source ".toList
     ++ Text.counted files "file".toList "files".toList ++ " - no issues found".toList),
   lineEnd]

/-- A warning before a message. -/
def warningLabel : Run := inBold .yellow "warning:".toList

/-- The hint that files could not be read, unless the details are told anyway. -/
def parseNotes (count : Nat) (verbose : Bool) : List Styled :=
  if count = 0 || verbose then []
  else
    [[warningLabel,
      plain ([' '] ++ Text.ofNat count ++ " file(s) could not be parsed (use ".toList),
      inColor .cyan "-v".toList, plain " for details)".toList]]

end KeyLint.Listing
