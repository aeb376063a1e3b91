import KeyLint.Script.Grammar.Bindings
import KeyLint.Script.Grammar.Classes

/-!
# Expressions of a script

Operators only join their operands in the order in which they stand, so that their precedence does
not matter: an expression with operators is a group of its operands.
-/

namespace KeyLint.Script.Grammar

open Reading

/-! ## Template literals -/

/-- Reads the pieces of a template literal and the expressions between them, from a place inside it
on. A malformed escape is accepted only after a tag. -/
def templateRest (self : Rules) (tagged : Bool) :
    (fuel : Nat) → Place → Reading (List Chunk × List Node)
  | 0, _ => fail
  | fuel + 1, place => do
    match readPiece? (← get).fuel place with
    | none => fail
    | some piece =>
      if piece.units.isNone && !tagged then fail
      let raw := place.rest.take (place.rest.length - piece.stop.rest.length)
      let chunk : Chunk :=
        ⟨raw, piece.units.bind Text.ofUnits?, ⟨place.offset, piece.stop.offset⟩⟩
      moveTo piece.next
      if piece.isLast then return ([chunk], [])
      let part ← self.expression
      unless ← isSign "\x7d" do fail
      let (chunks, parts) ← templateRest self tagged fuel ((← get).here.drop 1)
      return (chunk :: chunks, part :: parts)

/-- Reads a template literal. -/
def templateLiteral (self : Rules) (tagged : Bool) : Reading Node := do
  let c ← get
  unless c.token = .sign "\x60" do fail
  let (chunks, parts) ← templateRest self tagged c.fuel c.next
  return .template chunks parts (← spanFrom c.here.offset)

/-! ## Object literals -/

/-- Reads a member of an object literal. -/
def objectMember (self : Rules) : Reading Node := do
  if ← eat "..." then return .spread (← self.assignment)
  let start ← offset
  let method ← methodHead false
  let key ← memberName self
  if method ≠ .nothing || (← isSign "(") || (← isSign "<") then
    let parts ← functionWithBody self
    match method with
    | .getter => return parts.getterNode key
    | .setter => return parts.setterNode key
    | _ => return parts.node [] [key]
  else if ← eat ":" then
    let value ← self.assignment
    return .property key value (← spanFrom start)
  else
    match key with
    | .ident _ => withDefault self key
    | _ => fail

/-- Reads an item of an array literal; nothing stands between two commas. -/
def arrayItem (self : Rules) : Reading Node := do
  if ← isSign "," then return .group [] else argument self

/-! ## Functions -/

/-- Reads a function from its keyword on, which may be named. -/
def functionExpression (self : Rules) : Reading Node := do
  expectWord "function"
  let _ ← eat "*"
  if isMention (← token) then
    let _ ← mention
  return (← functionWithBody self).node [] []

/-- Reads the body of an arrow function, after its arrow. -/
def arrowBody (self : Rules) (noIn beforeColon : Bool) : Reading (List Node) := do
  if ← isSign "\x7b" then block self else return [← self (.assignment noIn beforeColon)]

/-- Reads the arrow of an arrow function, which stands on the line of its parameters. -/
def arrow : Reading Unit := do
  if ← onNewLine then fail
  expect "=>"

/-- Reads an arrow function with parameters in parentheses, which have no decorators, up to its
arrow. -/
def parenthesizedHead (self : Rules) : Reading FunctionParts := do
  let types ← typeParameters self
  let params ← parameters self
  if params.any fun param => !param.decorators.isEmpty then fail
  let returned ← annotation self
  arrow
  return { types, params, returned }

/-- Reads an arrow function with one bare parameter, up to its arrow. -/
def bareHead : Reading FunctionParts := do
  let param := Node.ident (← identifier)
  arrow
  return { params := [{ pattern := [param] }] }

/-- Reads an arrow function up to its arrow; it may be asynchronous. -/
def arrowHead (self : Rules) : Reading FunctionParts := do
  let next ← following
  if (← isWord "async") && next.token ≠ .sign "=>" then
    advance
    if ← onNewLine then fail
    if ← isIdentifier then bareHead else parenthesizedHead self
  else if isMention (← token) then bareHead
  else parenthesizedHead self

/-- A token that the parameter of an asynchronous arrow function has to be, after `async` on its
line. -/
def isAsyncParameter (noIn : Bool) : Token → Bool
  | .name text escaped =>
    isMention (.name text escaped) && text ≠ "as".toList && text ≠ "let".toList
      && text ≠ "await".toList && !(noIn && text = "of".toList)
  | _ => false

/-- Reads the rest of an arrow function after its arrow. -/
def arrowRest (self : Rules) (noIn beforeColon : Bool) (head : FunctionParts) : Reading Node := do
  let body ← arrowBody self noIn beforeColon
  return { head with body := some body }.node [] []

/-- Reads an arrow function, if there is one. Before a colon, what looks like one with a return type
is none unless the colon follows it. -/
def arrowFunction? (self : Rules) (noIn beforeColon : Bool) : Reading (Option Node) := do
  unless (← isAnySign ["(", "<"]) || isMention (← token) do return none
  if (← isWord "async") && (← followedOnLine (isAsyncParameter noIn)) then
    advance
    return some (← arrowRest self noIn beforeColon (← bareHead))
  let start ← get
  match ← attempt (arrowHead self) with
  | none => return none
  | some head =>
    if beforeColon && !head.returned.isEmpty then
      let node ← attempt do
        let node ← arrowRest self noIn beforeColon head
        if ← isSign ":" then return node else fail
      if node.isNone then set start
      return node
    else return some (← arrowRest self noIn beforeColon head)

/-! ## Operands -/

/-- Words that stand for values. -/
def valueWords : List String :=
  ["this", "null", "true", "false"]

/-- Reads `super` or `import` and the member access, the module or the call after it. -/
def keywordOperand (self : Rules) : Reading Node := do
  let start ← offset
  if ← eatWord "super" then
    if ← eat "." then
      memberWord
      return .group []
    else if ← eat "[" then
      let key ← self.expression
      expect "]"
      return .group [key]
    else if ← isSign "(" then
      let args ← arguments self
      return .call .atom args (← spanFrom start)
    else fail
  else
    expectWord "import"
    if ← eat "." then
      let _ ← anyName
      return .atom
    else
      let args ← arguments self
      return .call .atom args (← spanFrom start)

/-- Reads the class that an expression is, with decorators or without. `operand` reads its
superclass. -/
def classExpression (self : Rules) (operand : Reading Node) : Reading Node := do
  let decorators ← decorators self
  classRest self operand false decorators

/-- Reads a regular expression, of which the current token is the beginning. -/
def regexLiteral : Reading Node := do
  let c ← get
  match afterRegex? c.fuel c.here with
  | some next =>
    moveTo next
    return .atom
  | none => fail

/-- Reads an operand without anything after it. `operand` reads one with all that belongs to it. -/
def primary (self : Rules) (operand : Reading Node) : Reading Node := do
  let c ← get
  match c.token with
  | .number | .privateName =>
    advance
    return .atom
  | .string value =>
    advance
    return .str value (← spanFrom c.here.offset)
  | .sign "\x60" => templateLiteral self false
  | .sign "(" =>
    advance
    let inner ← self.expression
    expect ")"
    return .wrapped .parens inner
  | .sign "[" =>
    advance
    return .array (← commaList "]" (arrayItem self))
  | .sign "\x7b" =>
    advance
    return .object (← commaList "\x7d" (objectMember self))
  | .sign "/" | .sign "/=" => regexLiteral
  | .sign "@" => classExpression self operand
  | .name .. =>
    if ← isWord "function" then functionExpression self
    else if ← isWord "class" then classExpression self operand
    else if ← isAnyWord ["super", "import"] then keywordOperand self
    else if ← isAnyWord valueWords then
      advance
      return .atom
    else if (← isWord "async")
        && (← followedOnLine fun token => token = .name "function".toList true) then
      advance
      functionExpression self
    else return .ident (← mention)
  | _ => fail

/-- An operand while what belongs to it is being read. -/
structure Operand where
  node : Node
  /-- An optional access has been read, which makes all that follows optional. -/
  isOptional : Bool := false
  /-- Something can be assigned to it. -/
  isTarget : Bool := false
  /-- There are operators before it, after it or in it. -/
  hasOperators : Bool := false
deriving Inhabited

/-- A node without anything after it that something can be assigned to. -/
def isPlainTarget : Node → Bool
  | .ident _ | .wrapped .parens _ | .array _ | .object _ => true
  | _ => false

/-- A token after type arguments that shows that they were type arguments without a call. -/
def followsInstantiation (c : Cursor) : Bool :=
  c.newline
    || match c.token with
      | .sign sign =>
        [")", "]", "\x7d", ":", ";", ",", ".", "?.", "==", "===", "!=", "!==", "&&", "||", "??",
         "&", "|", "^", "=", "?"].contains sign
      | .endOfText => true
      | _ => false

/-- The node of a call. -/
def callNode (operand : Operand) (types args : List Node) (span : Span) : Node :=
  if operand.isOptional then .group [operand.node, .swapped types args]
  else .typedCall operand.node types args span

/-- Reads type arguments after an operand, with a call, a template literal or nothing after them. -/
def instantiation (self : Rules) (start : Nat) (noCall : Bool) (operand : Operand) :
    Reading Operand := do
  let types ← typeArguments self
  if ← isSign "(" then
    if noCall then fail
    let args ← arguments self
    let node := callNode operand types args (← spanFrom start)
    return { operand with node, isTarget := false }
  else if ← isSign "\x60" then
    let literal ← templateLiteral self true
    return { operand with node := .group (operand.node :: (types ++ [literal])), isTarget := false }
  else if followsInstantiation (← get) then
    return { operand with node := .instantiated operand.node types }
  else fail

/-- Reads a member access after its dot. -/
def memberAccess (operand : Operand) : Reading Operand := do
  match ← token with
  | .privateName =>
    advance
    return { operand with node := .group [operand.node], isTarget := true }
  | _ =>
    let name ← anyName
    let node := if operand.isOptional then .group [operand.node] else .member operand.node name
    return { operand with node, isTarget := true }

/-- Reads an access by an expression in brackets. -/
def elementAccess (self : Rules) (operand : Operand) : Reading Operand := do
  expect "["
  let key ← self.expression
  expect "]"
  return { operand with node := .group [operand.node, key], isTarget := true }

/-- Reads what follows `?.`. -/
def optionalAccess (self : Rules) (operand : Operand) : Reading Operand := do
  let operand := { operand with isOptional := true, isTarget := true }
  if ← isSign "[" then elementAccess self operand
  else if ← isSign "(" then
    let args ← arguments self
    return { operand with node := .group (operand.node :: args) }
  else if ← isSign "<" then
    let types ← typeArguments self
    let args ← arguments self
    return { operand with node := .group [operand.node, .swapped types args] }
  else memberAccess operand

/-- Reads one piece of what belongs to an operand, if there is one. After `new` no call belongs to
it, and it has no optional access. -/
def suffix? (self : Rules) (start : Nat) (noCall : Bool) (operand : Operand) :
    Reading (Option Operand) := do
  match ← token with
  | .sign "." =>
    advance
    return some (← memberAccess operand)
  | .sign "?." =>
    if noCall then fail
    advance
    return some (← optionalAccess self operand)
  | .sign "[" => return some (← elementAccess self operand)
  | .sign "(" =>
    if noCall then return none
    let args ← arguments self
    let node := callNode operand [] args (← spanFrom start)
    return some { operand with node, isTarget := operand.isOptional }
  | .sign "\x60" =>
    let literal ← templateLiteral self true
    return some { operand with node := .group [operand.node, literal], isTarget := false }
  | .sign "!" =>
    if ← onNewLine then return none
    advance
    return some { operand with node := .wrapped .nonNull operand.node, isTarget := true }
  | .sign "<" | .sign "<<" => attempt (instantiation self start noCall operand)
  | _ => return none

/-- Reads all that belongs to an operand. -/
def suffixes (self : Rules) (start : Nat) (noCall : Bool) :
    (fuel : Nat) → Operand → Reading Operand
  | 0, operand => pure operand
  | fuel + 1, operand => do
    match ← suffix? self start noCall operand with
    | some operand => suffixes self start noCall fuel operand
    | none => return operand

/-- Reads the type arguments of what is made by `new`, which have arguments after them. -/
def newTypes (self : Rules) : Reading (List Node) := do
  let types ← typeArguments self
  unless ← isSign "(" do fail
  return types

/-- Reads what is made by `new`, from its keyword on, without what belongs to it further. What `new`
stands before has no calls, unless they are those of another `new`. -/
def newExpression (self : Rules) (operand : Reading Node) : (fuel : Nat) → Reading Node
  | 0 => fail
  | fuel + 1 => do
    expectWord "new"
    if ← eat "." then
      let _ ← anyName
      return .atom
    let start ← offset
    let first ← if ← isWord "new" then newExpression self operand fuel else primary self operand
    let callee ← suffixes self start true (← get).fuel { node := first }
    let types ← attempt (newTypes self)
    let args ← if ← isSign "(" then arguments self else pure []
    return .group [callee.node, .swapped (types.getD []) args]

/-- Reads an operand with all that belongs to it. The fuel bounds how deeply classes extend classes
that stand in their place. -/
def operandRule (self : Rules) : (fuel : Nat) → Reading Operand
  | 0 => throw .tooDeep
  | fuel + 1 => do
    let start ← offset
    let superclass := Operand.node <$> operandRule self fuel
    if ← isWord "new" then
      let made ← newExpression self superclass (← get).fuel
      suffixes self start false (← get).fuel { node := made }
    else
      let isSuper ← isWord "super"
      let first ← primary self superclass
      let isCall := first matches .typedCall ..
      suffixes self start false (← get).fuel
        { node := first, isTarget := isPlainTarget first || (isSuper && !isCall) }

/-- Reads an operand with all that belongs to it. -/
def operand (self : Rules) : Reading Operand := do
  operandRule self (← get).fuel

/-! ## Operators -/

/-- Words that are operators before an operand. -/
def unaryWords : List String :=
  ["delete", "void", "typeof"]

/-- Signs that are operators before an operand. -/
def unarySigns : List String :=
  ["+", "-", "~", "!"]

/-- Reads an operand with the operators before and after it. What follows an operator that is not a
sign to count with may be missing. -/
def unaryOperand (self : Rules) : Reading Operand := do
  if (← isAnySign unarySigns) || (← isAnyWord unaryWords) then
    advance
    let inner ← recover (self .unary)
    return { node := .group inner.toList, hasOperators := true }
  else if ← eatWord "await" then
    let inner ← optional (self .unary)
    return { node := .group inner.toList, hasOperators := true }
  else if ← isAnySign ["++", "--"] then
    advance
    return { node := .group [← self .unary], hasOperators := true }
  else if ← isSign "<" then
    expectChar '<'
    if ← eatWord "const" then
      expectChar '>'
      return { node := .wrapped .asConst (← self .unary), isTarget := true }
    else
      let type ← self.type
      expectChar '>'
      return { node := .typedWrapped .assertion [type] (← self .unary), isTarget := true }
  else
    let inner ← operand self
    if (← isAnySign ["++", "--"]) && !(← onNewLine) then
      advance
      return { node := .group [inner.node], hasOperators := true }
    else return inner

/-- Reads an operand with the operators before and after it. -/
def unaryRule (self : Rules) : Reading Node :=
  Operand.node <$> unaryOperand self

/-- Signs that are operators between operands. -/
def binarySigns : List String :=
  ["||", "??", "&&", "|", "^", "&", "==", "!=", "===", "!==", "<", ">", "<=", ">=", "<<", ">>",
   ">>>", "+", "-", "*", "/", "%", "**"]

/-- The current token is an operator between operands. -/
def atBinaryOperator (noIn : Bool) : Reading Bool := do
  if ← isAnySign binarySigns then return true
  else if ← isWord "instanceof" then return true
  else return !noIn && (← isWord "in")

/-- Reads the type after an operand, and says which wrapper it makes. -/
def typedWrapper (self : Rules) : Reading (Option (Wrapper × List Node)) := do
  if ← onNewLine then return none
  else if ← isWord "as" then
    advance
    if ← eatWord "const" then return some (.asConst, [])
    return some (.asType, [← self.type])
  else if ← isWord "satisfies" then
    advance
    return some (.satisfies, [← self.type])
  else return none

/-- Reads the types after an operand. -/
def typed (self : Rules) : (fuel : Nat) → Operand → Reading Operand
  | 0, operand => pure operand
  | fuel + 1, operand => do
    match ← typedWrapper self with
    | some (form, types) =>
      typed self fuel { operand with node := .typedWrapped form types operand.node }
    | none => return operand

/-- Reads an operand with its operators and the types after it. -/
def typedUnary (self : Rules) : Reading Operand := do
  let operand ← unaryOperand self
  typed self (← get).fuel operand

/-- Reads the first operand of an expression, which may be missing if an operator follows. -/
def firstOperand (self : Rules) : Reading Operand := do
  match ← recover (unaryOperand self) with
  | some operand => typed self (← get).fuel operand
  | none =>
    if (← atBinaryOperator false) && !(← isSign "/") then return { node := .group [] } else fail

/-- An expression in parentheses with the arrow of a function after it on its line. -/
def beforeArrow (node : Node) : Reading Bool := do
  return (node matches .wrapped .parens _) && (← isSign "=>") && !(← onNewLine)

/-- Reads operands with operators between them. An arrow function is no operand. -/
def binary (self : Rules) (noIn : Bool) : Reading Operand := do
  let first ← firstOperand self
  let more ← many do
    if ← atBinaryOperator noIn then
      advance
      let operand ← typedUnary self
      if ← beforeArrow operand.node then fail
      return some operand.node
    else return none
  if more.isEmpty then return first
  else return { node := .group (first.node :: more), hasOperators := true }

/-- Reads an expression that may be conditional. -/
def conditional (self : Rules) (noIn beforeColon : Bool) : Reading Operand := do
  let test ← binary self noIn
  if ← eat "?" then
    let yes ← self (.assignment false true)
    expect ":"
    let no ← self (.assignment noIn beforeColon)
    return { node := .cond test.node yes no, hasOperators := true }
  else return test

/-- Signs that assign. -/
def assignmentSigns : List String :=
  ["=", "+=", "-=", "*=", "/=", "%=", "**=", "<<=", ">>=", ">>>=", "&=", "|=", "^=", "&&=", "||=",
   "??="]

/-- Reads `yield` and what it yields. -/
def yieldExpression (noIn beforeColon : Bool) (self : Rules) : Reading Node := do
  expectWord "yield"
  if ← onNewLine then return .group []
  if ← eat "*" then return .group [← self (.assignment noIn beforeColon)]
  let value ← attempt (self (.assignment noIn beforeColon))
  return .group value.toList

/-- Reads an expression without commas outside of brackets. Anything in parentheses can stand for
the parameters of an arrow function. -/
def assignmentRule (self : Rules) (noIn beforeColon : Bool) : Reading Node := do
  if ← isWord "yield" then yieldExpression noIn beforeColon self
  else if let some node ← arrowFunction? self noIn beforeColon then return node
  else
    let start ← offset
    let left ← conditional self noIn beforeColon
    if !left.hasOperators && (← isAnySign assignmentSigns) then
      let isPlain ← isSign "="
      if !left.isTarget || (!isPlain && isPattern left.node) then fail
      let target := if isPlain then asPattern left.node else left.node
      advance
      let value ← self (.assignment noIn beforeColon)
      return .assign target value (← spanFrom start)
    else if !left.hasOperators && (← beforeArrow left.node) then
      advance
      return .group (left.node :: (← arrowBody self noIn beforeColon))
    else return left.node

/-- Reads an expression. -/
def expressionRule (self : Rules) (noIn : Bool) : Reading Node := do
  let first ← assignmentRule self noIn false
  let more ← many do
    if ← eat "," then return some (← self (.assignment noIn false)) else return none
  return if more.isEmpty then first else .group (first :: more)

end KeyLint.Script.Grammar
