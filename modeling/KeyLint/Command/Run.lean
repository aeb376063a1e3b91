import KeyLint.Command.Arguments
import KeyLint.Report.Document
import KeyLint.Text.Width

/-!
# Running commands

What a command does to a file system, and what it says.
-/

namespace KeyLint

/-- How a command ended. -/
inductive ExitStatus where
  | success
  /-- Errors were found. -/
  | failure
  /-- The command could not do its work. -/
  | error
deriving Repr, DecidableEq, Inhabited

/-- The number of an exit status. -/
def ExitStatus.code : ExitStatus → Nat
  | .success => 0
  | .failure => 1
  | .error => 2

/-- What a command said and did. -/
structure Result where
  status : ExitStatus := .success
  output : Printed := {}
  /-- Lines for the error output. -/
  notes : List Styled := []
  /-- Files that are to be written, by path and text. -/
  written : List (Text × Text) := []
deriving Repr, DecidableEq, Inhabited

/-- What is said about the program if no command is asked for. -/
def overview : Text :=
  ("A fast CLI tool for checking i18n key naming and hardcoded text in "
    ++ "Angular (Transloco) projects\n"
    ++ "\n"
    ++ "Usage: ngi18n [COMMAND]\n"
    ++ "\n"
    ++ "Commands:\n"
    ++ "  check  Check translation key naming and hardcoded user-facing text\n"
    ++ "  init   Initialize a new .ngi18nrc.json configuration file\n"
    ++ "  help   Print this message or the help of the given subcommand(s)\n"
    ++ "\n"
    ++ "Options:\n"
    ++ "  -h, --help     Print help\n"
    ++ "  -V, --version  Print version\n").toList

namespace Result

/-- The result of a check. -/
def ofChecked (format : OutputFormat) (verbose : Bool) (c : Checked) : Result :=
  let status := if c.outcome.errors > 0 then .failure else .success
  match format with
  | .json => { status, output := .all [Styled.plain (Document.write c.outcome)], notes := c.notes }
  | .text =>
    let output :=
      if c.outcome.issues.isEmpty then .all (Listing.success c.outcome.filesChecked)
      else Listing.report Text.width c.outcome.issues
    let more := if output.isComplete then Listing.parseNotes c.outcome.parseErrors verbose else []
    { status, output, notes := c.notes ++ more }

/-- The result of writing a configuration, which leaves a file that is there alone. -/
def ofInit (fs : FileSystem) : Result :=
  let path := Path.join ".".toList Discovery.configName
  if fs.has path then
    { status := .failure
      notes := [[Styled.inBold .red "error:".toList,
        Styled.plain ([' '] ++ Discovery.configName ++ " already exists".toList)]] }
  else
    { output := .all [Styled.inColor .green Listing.successMark, Styled.plain [' '],
        Styled.inColor .green ("Created ".toList ++ Discovery.configName), Listing.lineEnd]
      written := [(path, Config.write {})] }

/-- The number that the program ends with. Printing that stops ends it with a number of its own. -/
def code (r : Result) : Nat :=
  if r.output.isComplete then r.status.code else 101

end Result

/-- Runs a command. -/
def Command.run (fs : FileSystem) : Command → Except CheckError Result
  | .overview => .ok { output := .all [Styled.plain KeyLint.overview] }
  | .check options format => (checkProject fs options).map (Result.ofChecked format options.verbose)
  | .init => .ok (Result.ofInit fs)

end KeyLint
