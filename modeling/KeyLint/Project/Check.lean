import KeyLint.Analysis
import KeyLint.Project.Discovery
import KeyLint.Project.Scan

/-!
# Checking a project

A check loads the configuration, finds the sources and analyses each of them. A source that cannot
be read is an issue of its own and does not stop the check.
-/

namespace KeyLint

/-- Why a check cannot start. -/
inductive CheckError where
  | notDirectory (path : Text)
  | config (error : Discovery.LoadError)
deriving Repr, DecidableEq, Inhabited

/-- What is said about a check that cannot start. -/
def CheckError.message : CheckError → Text
  | .notDirectory path => "Source root is not a directory: ".toList ++ path
  | .config error => error.message

/-- What is checked. -/
structure CheckOptions where
  rules : List RuleName := []
  /-- The directory with the project. -/
  root : Text := ".".toList
  verbose : Bool := false
deriving Repr, DecidableEq, Inhabited

/-- The directory that is scanned: the configured one as seen from the project's, written as
configured if the project is in the working directory. -/
def scanBase (root sourceRoot : Text) : Text :=
  if Path.isAbsolute sourceRoot || Path.isCurrent root then sourceRoot
  else Path.join root (Path.dropCurrent sourceRoot)

/-- The issues of a source, or what is said about it if it cannot be read. -/
def sourceIssues (settings : Settings) (rules : RuleSet) (file source : Text) :
    Except Text (List Issue) :=
  match analyze settings rules file source with
  | .error e => .error e.message
  | .ok diagnostics => .ok (diagnostics.map (Issue.ofDiagnostic file source))

/-- The issues of a file, or what is said about it if it cannot be read. -/
def fileIssues (fs : FileSystem) (settings : Settings) (rules : RuleSet) (file : Text) :
    Except Text (List Issue) :=
  match fs.read? file with
  | none =>
    .error ("Failed to read file: ".toList ++ file
      ++ ": stream did not contain valid UTF-8".toList)
  | some source => sourceIssues settings rules file source

/-- What a check did: its outcome, and the lines that it says on the way. -/
structure Checked where
  outcome : Outcome
  notes : List Styled
deriving Repr, DecidableEq, Inhabited

/-- The note that there is no configuration file. -/
def defaultsNote : Styled :=
  [Styled.plain ("Note: No ".toList ++ Discovery.configName
    ++ " found, using default configuration".toList)]

/-- The note that a file cannot be read. -/
def failureNote (file error : Text) : Styled :=
  [Listing.warningLabel,
   Styled.plain (" Failed to parse ".toList ++ file ++ ": ".toList ++ error)]

/-- The notes about a scan. -/
def scanNotes (verbose : Bool) (s : Scan) : List Styled :=
  (if verbose then s.warnings else [])
    ++ (if s.skipped = 0 then []
      else
        [[Listing.warningLabel,
          Styled.plain ([' '] ++ Text.ofNat s.skipped
            ++ " path(s) skipped due to access errors".toList
            ++ (if verbose then [] else " (use -v for details)".toList))]])

/-- Checks sources, one after the other. -/
def checkFiles (fs : FileSystem) (settings : Settings) (rules : RuleSet) (verbose : Bool) :
    List Text → List Issue × List Styled
  | [] => ([], [])
  | file :: files =>
    let (issues, notes) := checkFiles fs settings rules verbose files
    match fileIssues fs settings rules file with
    | .ok found => (found ++ issues, notes)
    | .error error =>
      (.parseError file error :: issues,
       if verbose then failureNote file error :: notes else notes)

/-- Checks a project. -/
def checkProject (fs : FileSystem) (options : CheckOptions) : Except CheckError Checked :=
  if !fs.hasDirectory options.root then .error (.notDirectory options.root)
  else
    match Discovery.loadConfig fs options.root with
    | .error e => .error (.config e)
    | .ok loaded =>
      let config := loaded.config
      let found := scan fs (scanBase options.root config.sourceRoot) config.includes config.ignores
      let (issues, notes) :=
        checkFiles fs config.settings (RuleSet.ofNames options.rules) options.verbose found.files
      .ok {
        outcome := Outcome.ofIssues issues found.files.length
        notes :=
          (if options.verbose && !loaded.isFromFile then [defaultsNote] else [])
            ++ scanNotes options.verbose found ++ notes }

end KeyLint
