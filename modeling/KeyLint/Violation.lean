import KeyLint.FileContext
import KeyLint.Span

/-!
# Violations

What a rule finds, how it is worded, and where in a file it was found.
-/

namespace KeyLint

/-- How serious a finding is. -/
inductive Severity where
  | error
  | warning
deriving Repr, DecidableEq, Inhabited

/-- The name of a severity. -/
def Severity.name : Severity → Text
  | .error => "error".toList
  | .warning => "warning".toList

/-- What a finding breaks; a file that cannot be read breaks a rule of its own. The order of the
constructors is the order in which findings at one place are listed. -/
inductive Rule where
  | keyNamingConvention
  | noHardcodedStrings
  | parseError
deriving Repr, DecidableEq, Inhabited

namespace Rule

/-- The name of a rule in reports. -/
def name : Rule → Text
  | .keyNamingConvention => "key-naming-convention".toList
  | .noHardcodedStrings => "no-hardcoded-strings".toList
  | .parseError => "parse-error".toList

/-- The place of a rule among the findings at one place. -/
def rank : Rule → Nat
  | .keyNamingConvention => 0
  | .noHardcodedStrings => 1
  | .parseError => 2

end Rule

/-- The option that a refused pattern was given for. -/
inductive PatternOption where
  | nonUserFacing
  | ignore
deriving Repr, DecidableEq, Inhabited

/-- The name of a pattern option in a configuration. -/
def PatternOption.name : PatternOption → Text
  | .nonUserFacing => "nonUserFacingPattern".toList
  | .ignore => "ignorePattern".toList

/-- A finding, with what its message tells. -/
inductive Violation where
  | mismatchedKey (key expectedPrefix : Text)
  | tooManyParts (key : Text) (kind : FileKind)
  | notEnoughParts (key : Text) (kind : FileKind)
  | noHardString (text : Text)
  | invalidPattern (option : PatternOption) (pattern reason : Text)
deriving Repr, DecidableEq, Inhabited

namespace Violation

/-- The name of a kind of finding. -/
def id : Violation → Text
  | .mismatchedKey .. => "mismatchedKey".toList
  | .tooManyParts .. => "tooManyParts".toList
  | .notEnoughParts .. => "notEnoughParts".toList
  | .noHardString .. => "noHardString".toList
  | .invalidPattern .. => "invalidPattern".toList

/-- The rule that a finding breaks. -/
def rule : Violation → Rule
  | .mismatchedKey .. | .tooManyParts .. | .notEnoughParts .. => .keyNamingConvention
  | .noHardString .. | .invalidPattern .. => .noHardcodedStrings

/-- A refused pattern is a warning, anything else an error. -/
def severity : Violation → Severity
  | .invalidPattern .. => .warning
  | _ => .error

/-- The key that a finding is about, if it is about one. -/
def key? : Violation → Option Text
  | .mismatchedKey key _ | .tooManyParts key _ | .notEnoughParts key _ => some key
  | .noHardString .. | .invalidPattern .. => none

/-- A piece of what a message tells. -/
inductive Datum where
  | text (t : Text)
  | number (n : Nat)
deriving Repr, DecidableEq, Inhabited

/-- A datum as it is written in a message. -/
def Datum.toText : Datum → Text
  | .text t => t
  | .number n => Text.ofNat n

/-- What the message of a finding tells, by name and in the message's order. -/
def data : Violation → List (Text × Datum)
  | .mismatchedKey key expectedPrefix =>
    [("key".toList, .text key), ("expectedPrefix".toList, .text expectedPrefix)]
  | .tooManyParts key kind =>
    [("key".toList, .text key), ("type".toList, .text kind.name),
     ("maxParts".toList, .number kind.keyParts), ("example".toList, .text kind.sampleKey)]
  | .notEnoughParts key kind =>
    [("key".toList, .text key), ("type".toList, .text kind.name),
     ("minParts".toList, .number kind.keyParts), ("example".toList, .text kind.sampleKey)]
  | .noHardString text => [("text".toList, .text text)]
  | .invalidPattern option pattern reason =>
    [("option".toList, .text option.name), ("pattern".toList, .text pattern),
     ("reason".toList, .text reason)]

/-- What is said about a finding. -/
def message : Violation → Text
  | .mismatchedKey key expectedPrefix =>
    "Key '".toList ++ key
      ++ ("' does not follow naming convention. "
        ++ "Expected the i18n key to start with '").toList
      ++ expectedPrefix ++ ".'".toList
  | .tooManyParts key kind =>
    "Key '".toList ++ key ++ "' is too long. Max depth for a ".toList ++ kind.name
      ++ " is ".toList ++ Text.ofNat kind.keyParts ++ ". For example, '".toList
      ++ kind.sampleKey ++ "'".toList
  | .notEnoughParts key kind =>
    "Key '".toList ++ key ++ "' is too short. Min depth for a ".toList ++ kind.name
      ++ " is ".toList ++ Text.ofNat kind.keyParts ++ ". For example, '".toList
      ++ kind.sampleKey ++ "'".toList
  | .noHardString text =>
    "Hard-coded string \"".toList ++ text
      ++ "\" should be replaced with a translation key.".toList
  | .invalidPattern option pattern reason =>
    "Invalid ".toList ++ option.name ++ " \"".toList ++ pattern ++ "\": ".toList ++ reason
      ++ ". Falling back to the built-in defaults.".toList

end Violation

/-- A finding and the part of the file that it is about. -/
structure Diagnostic where
  span : Span
  violation : Violation
deriving Repr, DecidableEq, Inhabited

end KeyLint
