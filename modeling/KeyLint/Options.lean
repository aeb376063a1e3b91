import KeyLint.Text.Basic

/-!
# Rule options

What a project may configure about each of the two rules.
-/

namespace KeyLint

/-- Options of the key naming rule. -/
structure NamingOptions where
  /-- Keys that start with one of these are accepted as they are. -/
  ignoredPrefixes : List Text := []
  /-- Beginnings of file names that do not count for the keys of the file. -/
  stripFilePrefixes : List Text := ["feature-".toList, "ui-".toList]
  /-- Pages are components. -/
  recognizePages : Bool := true
deriving Repr, DecidableEq, Inhabited

/-- Options of the hard-coded text rule. -/
structure WordingOptions where
  /-- A pattern for further names that never hold text for the user. -/
  nonUserFacingPattern : Option Text := none
  /-- A pattern for texts that are never reported. -/
  ignorePattern : Option Text := none
deriving Repr, DecidableEq, Inhabited

/-- The rules that run. -/
structure RuleSet where
  naming : Bool := true
  wording : Bool := true
deriving Repr, DecidableEq, Inhabited

/-- A rule as it is asked for on the command line. -/
inductive RuleName where
  | naming
  | wording
deriving Repr, DecidableEq, Inhabited

/-- The rules that were asked for; both if none was. -/
def RuleSet.ofNames (names : List RuleName) : RuleSet :=
  if names.isEmpty then {}
  else { naming := names.contains .naming, wording := names.contains .wording }

end KeyLint
