import KeyLint.Checker
import KeyLint.Script.Parser
import KeyLint.Template.Reader
import KeyLint.Text.Lines

/-!
# Analysing a source

A source is read as a template or as a script, by the ending of its file's name, and what is read is
checked in the order in which it is visited. A file without a context is not even read.
-/

namespace KeyLint

/-- Why a source cannot be read. -/
inductive SourceError where
  | template (error : Template.Error) (position : Position)
  | script (error : Script.SyntaxError)
deriving Repr, DecidableEq, Inhabited

/-- What is said about a source that cannot be read. -/
def SourceError.message : SourceError → Text
  | .template error position =>
    error.message ++ " at ".toList ++ Text.ofNat position.line ++ ":".toList
      ++ Text.ofNat position.column
  | .script error => error.message

/-- The events of a source, in the order in which they are visited. -/
def sourceEvents (file source : Text) : Except SourceError (List Event) :=
  if (Text.before? ".html".toList file).isSome then
    match Template.items source with
    | .ok items => .ok (items.map Event.template)
    | .error e => .error (.template e (Text.position source e.offset))
  else if (Text.before? ".ts".toList file).isSome then
    match Script.parse source with
    | .ok nodes => .ok ((Script.Node.eventsIn nodes).map Event.script)
    | .error e => .error (.script e)
  else .ok []

/-- The findings in a source. -/
def analyze (settings : Settings) (rules : RuleSet) (file source : Text) :
    Except SourceError (List Diagnostic) :=
  let checker := Checker.ofFile settings rules file
  match checker.context with
  | none => .ok (checker.run [])
  | some _ => (sourceEvents file source).map checker.run

end KeyLint
