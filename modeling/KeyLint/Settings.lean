import KeyLint.Violation
import KeyLint.Wording

/-!
# Settings

The options of both rules with their patterns read. A pattern that is refused counts as not given,
and is remembered so that it can be reported.
-/

namespace KeyLint

/-- The options of both rules, ready for use. -/
structure Settings where
  naming : NamingOptions
  denylist : Denylist
  ignore : Option Pattern
  problems : List Violation
deriving Repr, DecidableEq

/-- Reads the pattern of an option, which is not given if it is missing or empty. -/
def readOption (source : Option Text) : Option (Except (Text × PatternError) Pattern) :=
  match source with
  | none | some [] => none
  | some source =>
    match Pattern.parse source with
    | .ok pattern => some (.ok pattern)
    | .error e => some (.error (source, e))

/-- The pattern of an option, if it is given and not refused. -/
def optionPattern? (source : Option Text) : Option Pattern :=
  match readOption source with
  | some (.ok pattern) => some pattern
  | _ => none

/-- The finding about the pattern of an option, if it is given and refused. -/
def optionProblem? (option : PatternOption) (source : Option Text) : Option Violation :=
  match readOption source with
  | some (.error (pattern, e)) => some (.invalidPattern option pattern e.message)
  | _ => none

/-- Makes options ready for use. -/
def Settings.ofOptions (naming : NamingOptions) (wording : WordingOptions) : Settings where
  naming := naming
  denylist := Denylist.ofPattern (optionPattern? wording.nonUserFacingPattern)
  ignore := optionPattern? wording.ignorePattern
  problems :=
    (optionProblem? .nonUserFacing wording.nonUserFacingPattern).toList
      ++ (optionProblem? .ignore wording.ignorePattern).toList

end KeyLint
