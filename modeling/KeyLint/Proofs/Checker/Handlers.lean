import KeyLint.Checker

/-!
# What each rule finds

Each handler asks for the rules by itself. The two rules do not meddle with each other all the same:
what they find at an event is what the naming rule finds there, if it is chosen, and then what the
wording rule finds there, if it is chosen.
-/

namespace KeyLint

namespace Checker

/-- What the naming rule finds at an event. -/
def namingFindings (c : Checker) (tracker : Tracker) : Event → List Diagnostic
  | .script (.typedCall callee _ arguments _) =>
    c.literalFindings (c.calledKeys tracker callee arguments)
  | .script (.property key value _) =>
    if key.isTemplateKey then
      match value.markup? with
      | some (markup, span) => c.expressionFindings markup (c.scriptSpan span)
      | none => []
    else []
  | .script _ => []
  | .template (.text value span) =>
    if Expression.textMentions value then c.expressionFindings value span else []
  | .template (.textAttribute name value _ span) =>
    if Expression.attributeMentions name value then c.expressionFindings value span else []
  | .template (.boundAttribute _ source span) | .template (.boundText source span) =>
    if Expression.sourceMentions source then c.expressionFindings source span else []

/-- What the wording rule finds at an event: class fields count in scripts that are no tests, items
in templates. -/
def wordingFindings (c : Checker) : Event → List Diagnostic
  | .script (.typedField modifiers key _ value _ _) =>
    if c.surface = .script then
      match Script.Node.fieldLiteral? modifiers value with
      | none => []
      | some literal =>
        if key.fieldName?.any c.settings.denylist.hits then []
        else c.textFindings literal.value (c.scriptSpan literal.span)
    else []
  | .script _ => []
  | .template item =>
    if c.surface = .template then
      match item with
      | .text value span => c.textFindings (Text.trim value) span
      | .textAttribute name value structural span =>
        if !structural && Wording.userFacingAttributes.contains name then c.textFindings value span
        else []
      | .boundAttribute name source span =>
        if c.settings.denylist.hits name || Expression.textMentions source then []
        else
          match Expression.stringLiteral? source with
          | some text => c.textFindings text span
          | none => []
      | .boundText _ _ => []
    else []

/-! ## Handlers -/

variable (c : Checker) (tracker : Tracker)

/-- What the chosen rules find at an event, by what each of them finds there on its own. -/
def chosenFindings (event : Event) : List Diagnostic :=
  (if c.rules.naming then c.namingFindings tracker event else [])
    ++ (if c.rules.wording then c.wordingFindings event else [])

theorem append_ite_nil (ds : List Diagnostic) (chosen : Bool) :
    ds ++ (if chosen then [] else []) = ds := by
  rw [ite_self, List.append_nil]

theorem nodeFindings_eq (node : Script.Node) :
    c.nodeFindings tracker node = c.chosenFindings tracker (.script node) := by
  cases node with
  | typedCall callee types arguments span => exact (append_ite_nil _ _).symm
  | property key value span => exact (append_ite_nil _ _).symm
  | typedField modifiers key types value decorators span =>
      have hnaming : (if c.rules.naming then ([] : List Diagnostic) else []) = [] := ite_self []
      exact congrArg (· ++ c.fieldFindings modifiers key value) hnaming.symm
  | _ => exact ((append_ite_nil _ _).trans (ite_self [])).symm

theorem itemFindings_eq (item : Template.Item) :
    c.itemFindings item = c.chosenFindings tracker (.template item) := by
  cases item with
  | text value span => rfl
  | textAttribute name value structural span => rfl
  | boundAttribute name source span => rfl
  | boundText source span =>
      have hwording : c.wordingFindings (.template (.boundText source span)) = [] := ite_self []
      rw [chosenFindings, hwording]
      exact (append_ite_nil _ _).symm

/-- The findings at an event are those of the naming rule and then those of the wording rule. -/
theorem findings_eq (event : Event) :
    c.findings tracker event
      = if c.context.isSome then c.chosenFindings tracker event else [] := by
  cases event with
  | script node => rw [findings, nodeFindings_eq]
  | template item => rw [findings, itemFindings_eq c tracker]

end Checker

end KeyLint
