import KeyLint.Expression.Keys
import KeyLint.Key
import KeyLint.Script.Literal
import KeyLint.Settings
import KeyLint.Template.Item
import KeyLint.Tracker

/-!
# Checking a file

A file is a sequence of events: items of a template or nodes of a script, in the order in which they
are visited. Each kind of event has a handler of its own, which says what the chosen rules find at
it; what script variables are bound to is tracked along the way. The findings of a file are those
about its settings and then those of its events in turn.
-/

namespace KeyLint

/-- Something in a file that the rules look at. -/
inductive Event where
  | script (node : Script.Node)
  | template (item : Template.Item)
deriving Repr, Inhabited

/-- What a file holds, by the ending of its name. -/
inductive Surface where
  | template
  | script
  | testScript
  | other
deriving Repr, DecidableEq, Inhabited

/-- What a file of this name holds. -/
def Surface.ofFile (file : Text) : Surface :=
  if (Text.before? ".html".toList file).isSome then .template
  else if isTestFile file then .testScript
  else if (Text.before? ".ts".toList file).isSome then .script
  else .other

/-- All that is fixed while a file is checked. `scriptBase` is the offset that the script's spans
count from. -/
structure Checker where
  settings : Settings
  rules : RuleSet
  context : Option FileContext
  surface : Surface
  scriptBase : Nat := 0
deriving Repr, DecidableEq

namespace Checker

/-- The checker for a file of this name. -/
def ofFile (settings : Settings) (rules : RuleSet) (file : Text) : Checker where
  settings := settings
  rules := rules
  context := FileContext.ofFile? settings.naming file
  surface := Surface.ofFile file

/-- A span of the script as a span of the file. -/
def scriptSpan (c : Checker) (span : Span) : Span :=
  span.relativeTo c.scriptBase

/-- The literals of a script expression, with spans of the file. -/
def literals (c : Checker) (node : Script.Node) : List Literal :=
  node.literals.map fun literal => { literal with span := c.scriptSpan literal.span }

/-! ## Keys -/

/-- The findings about a key at a span. -/
def keyFindings (c : Checker) (key : Text) (span : Span) : List Diagnostic :=
  match c.context with
  | none => []
  | some context =>
    ((Key.fault? context c.settings.naming.ignoredPrefixes key).map fun fault =>
      ⟨span, fault⟩).toList

/-- The findings about the keys of an expression, all at one span. -/
def expressionFindings (c : Checker) (source : Text) (span : Span) : List Diagnostic :=
  (Expression.keys source).flatMap fun key => c.keyFindings key span

/-- The findings about the keys of literals, each at its own span. -/
def literalFindings (c : Checker) (literals : List Literal) : List Diagnostic :=
  literals.flatMap fun literal => c.keyFindings literal.value literal.span

/-- The literals that a call passes as a key: those bound to the name that is its first argument, or
else those of that argument itself. -/
def calledKeys (c : Checker) (tracker : Tracker) (callee : Script.Node)
    (arguments : List Script.Node) : List Literal :=
  if callee.isTranslationMethod then
    match Script.Node.firstArgument? arguments with
    | none => []
    | some (.ident name) => tracker.lookup name
    | some argument => c.literals argument
  else []

/-! ## Texts -/

/-- The findings about a text at a span. -/
def textFindings (c : Checker) (text : Text) (span : Span) : List Diagnostic :=
  match Wording.exemption? c.settings.ignore text with
  | some _ => []
  | none => [⟨span, .noHardString (text.take Wording.maxReported)⟩]

/-! ## Handlers -/

def callFindings (c : Checker) (tracker : Tracker) (callee : Script.Node)
    (arguments : List Script.Node) : List Diagnostic :=
  if c.rules.naming then c.literalFindings (c.calledKeys tracker callee arguments) else []

/-- The findings at a property, which may hold a template. -/
def propertyFindings (c : Checker) (key value : Script.Node) : List Diagnostic :=
  if c.rules.naming then
    if key.isTemplateKey then
      match value.markup? with
      | some (markup, span) => c.expressionFindings markup (c.scriptSpan span)
      | none => []
    else []
  else []

/-- The findings at a class field of a script that is no test. -/
def fieldFindings (c : Checker) (modifiers : Script.Modifiers) (key : Script.Node)
    (value : Option Script.Node) : List Diagnostic :=
  if c.rules.wording then
    if c.surface = .script then
      match Script.Node.fieldLiteral? modifiers value with
      | none => []
      | some literal =>
        if key.fieldName?.any c.settings.denylist.hits then []
        else c.textFindings literal.value (c.scriptSpan literal.span)
    else []
  else []

def nodeFindings (c : Checker) (tracker : Tracker) : Script.Node → List Diagnostic
  | .typedCall callee _ arguments _ => c.callFindings tracker callee arguments
  | .property key value _ => c.propertyFindings key value
  | .typedField modifiers key _ value _ _ => c.fieldFindings modifiers key value
  | _ => []

/-- The findings at a text of a template. -/
def plainTextFindings (c : Checker) (value : Text) (span : Span) : List Diagnostic :=
  (if c.rules.naming then
      if Expression.textMentions value then c.expressionFindings value span else []
    else [])
    ++ (if c.rules.wording then
        if c.surface = .template then c.textFindings (Text.trim value) span else []
      else [])

/-- The findings at an attribute with a text for its value. -/
def textAttributeFindings (c : Checker) (name value : Text) (structural : Bool) (span : Span) :
    List Diagnostic :=
  (if c.rules.naming then
      if Expression.attributeMentions name value then c.expressionFindings value span else []
    else [])
    ++ (if c.rules.wording then
        if c.surface = .template then
          if !structural && Wording.userFacingAttributes.contains name then
            c.textFindings value span
          else []
        else []
      else [])

/-- The findings at an attribute with an expression for its value. -/
def boundAttributeFindings (c : Checker) (name source : Text) (span : Span) : List Diagnostic :=
  (if c.rules.naming then
      if Expression.sourceMentions source then c.expressionFindings source span else []
    else [])
    ++ (if c.rules.wording then
        if c.surface = .template then
          if c.settings.denylist.hits name || Expression.textMentions source then []
          else
            match Expression.stringLiteral? source with
            | some text => c.textFindings text span
            | none => []
        else []
      else [])

def boundTextFindings (c : Checker) (source : Text) (span : Span) : List Diagnostic :=
  if c.rules.naming then
    if Expression.sourceMentions source then c.expressionFindings source span else []
  else []

def itemFindings (c : Checker) : Template.Item → List Diagnostic
  | .text value span => c.plainTextFindings value span
  | .textAttribute name value structural span => c.textAttributeFindings name value structural span
  | .boundAttribute name source span => c.boundAttributeFindings name source span
  | .boundText source span => c.boundTextFindings source span

/-! ## Events in turn -/

/-- The findings at an event. A file without a context is not looked at. -/
def findings (c : Checker) (tracker : Tracker) (event : Event) : List Diagnostic :=
  if c.context.isSome then
    match event with
    | .script node => c.nodeFindings tracker node
    | .template item => c.itemFindings item
  else []

/-- The bindings after an event: a declaration or an assignment binds the literals on its right side
to a plain name on its left. -/
def track (c : Checker) (tracker : Tracker) : Event → Tracker
  | .script (.typedDeclarator (.ident name) _ (some init) _) => tracker.record name (c.literals init)
  | .script (.assign (.ident name) value _) => tracker.record name (c.literals value)
  | _ => tracker

/-- The findings about the settings, all at the beginning of the file. -/
def initial (c : Checker) : List Diagnostic :=
  if c.context.isSome && c.rules.wording then
    c.settings.problems.map fun problem => ⟨Span.fileStart, problem⟩
  else []

/-- The findings of each event in turn, beginning with some bindings. -/
def stepsFrom (c : Checker) (tracker : Tracker) : List Event → List (List Diagnostic)
  | [] => []
  | event :: events => c.findings tracker event :: c.stepsFrom (c.track tracker event) events

/-- The findings of each event in turn. -/
def steps (c : Checker) (events : List Event) : List (List Diagnostic) :=
  c.stepsFrom {} events

/-- All findings of a file. -/
def run (c : Checker) (events : List Event) : List Diagnostic :=
  c.initial ++ (c.steps events).flatten

end Checker

end KeyLint
