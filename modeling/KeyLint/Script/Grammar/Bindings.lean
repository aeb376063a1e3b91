import KeyLint.Script.Grammar.Lists

/-!
# Bindings of a script

What a declaration or a parameter binds: a plain name, or a pattern of names with default values. An
expression on the left side of an assignment becomes such a pattern too; what looks like a property
or an assignment in it is none.
-/

namespace KeyLint.Script.Grammar

open Reading

/-- Reads a member of an array pattern; nothing stands between two commas. -/
def arrayPatternMember (self : Rules) : Reading Node := do
  if ← isSign "," then return .group []
  let _ ← eat "..."
  withDefault self (← self .binding)

/-- Reads a member of an object pattern. -/
def objectPatternMember (self : Rules) : Reading Node := do
  if ← eat "..." then self .binding
  else
    let key ← memberName self
    if ← eat ":" then
      let inner ← withDefault self (← self .binding)
      return .group [key, inner]
    else
      match key with
      | .ident _ => withDefault self key
      | _ => fail

/-- Reads a binding. -/
def bindingRule (self : Rules) : Reading Node := do
  if ← eat "[" then return .array (← commaList "]" (arrayPatternMember self))
  else if ← eat "\x7b" then return .group (← commaList "\x7d" (objectPatternMember self))
  else return .ident (← identifier)

/-- An expression that is a pattern of names as the target of an assignment. -/
def isPattern : Node → Bool
  | .array _ | .object _ => true
  | _ => false

mutual

/-- An expression as the target of an assignment. -/
def asPattern : Node → Node
  | .array items => .array (asPatterns items)
  | .object members => .object (asPatterns members)
  | .spread inner => asPattern inner
  | .property key value _ => .group [key, asPattern value]
  | .assign target value _ => .group [asPattern target, value]
  | node => node

/-- Expressions as the targets of an assignment. -/
def asPatterns : List Node → List Node
  | [] => []
  | node :: nodes => asPattern node :: asPatterns nodes

end

end KeyLint.Script.Grammar
