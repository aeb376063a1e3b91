import KeyLint.Script.Grammar.Statements

/-!
# Reading a whole script

The rules of the grammar take each other as an argument; here they are tied together. The fuel
bounds how deeply forms are nested, and is more than any script of its length can use up.
-/

namespace KeyLint.Script

/-- The rule for each goal, given all rules for what is inside. -/
def Grammar.rules (self : Rules) : Rules
  | .type => typeRule self
  | .binding => bindingRule self
  | .statement => statementRule self
  | .body => bodyRule self
  | .item => itemRule self
  | .unary => unaryRule self
  | .assignment noIn beforeColon => assignmentRule self noIn beforeColon
  | .expression noIn => expressionRule self noIn

/-- All rules, nested at most as deeply as the fuel allows. -/
def Grammar.nested : (fuel : Nat) → Rules
  | 0 => fun _ => throw .tooDeep
  | fuel + 1 => rules (nested fuel)

/-- Reads statements, imports and exports up to the end of the script. -/
def Grammar.module (self : Rules) : Reading (List Node) := do
  let statements ← Reading.many do
    if (← Reading.token) = .endOfText then return none
    return some (← self .item)
  unless (← Reading.token) = .endOfText do Reading.fail
  return statements

/-- A script without the byte order mark at its beginning. -/
def dropMark : Text → Text
  | '\ufeff' :: cs => cs
  | cs => cs

/-- The place after the line that names an interpreter, if a script begins with one. -/
def afterInterpreter (start : Place) : Place :=
  match start.rest with
  | '#' :: '!' :: _ => start.dropWhile fun c => !isLineEnd c
  | _ => start

/-- The nodes of a script. Spans are counted from after a byte order mark. -/
def parse (source : Text) : Except SyntaxError (List Node) :=
  let start : Place := ⟨0, dropMark source⟩
  let fuel := start.rest.length + 1
  let cursor := Cursor.after fuel (afterInterpreter start)
  match Grammar.module (Grammar.nested (4 * fuel)) cursor with
  | .ok (nodes, _) => .ok nodes
  | .error failure => .error failure.error

end KeyLint.Script
