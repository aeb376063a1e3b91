import KeyLint.Script.Reading

/-!
# Lists in a script

Arguments, type arguments, decorators and parameters, and the names of members: the lists and small
pieces that all larger forms share.
-/

namespace KeyLint.Script.Grammar

open Reading

/-- The current token begins with a closing angle bracket. -/
def atCloseAngle : Reading Bool :=
  return (← get).here.rest.head? = some '>'

/-- Reads items in angle brackets. -/
def angleList (item : Reading Node) : Reading (List Node) := do
  expectChar '<'
  let items ← many do
    if ← atCloseAngle then return none
    let node ← item
    unless ← atCloseAngle do expect ","
    return some node
  expectChar '>'
  return items

/-- Reads type arguments. -/
def typeArguments (self : Rules) : Reading (List Node) :=
  angleList self.type

/-- Words that may stand before a type parameter. -/
def isParameterModifier : Token → Bool
  | .name .. => true
  | _ => false

/-- Reads a type parameter. -/
def typeParameter (self : Rules) : Reading Node := do
  let _ ← many do
    if (← isAnyWord ["const", "in", "out"]) && (← followedOnLine isParameterModifier) then
      advance
      return some ()
    else return none
  let _ ← anyName
  let bound ← if ← eatWord "extends" then some <$> self.type else pure none
  let default ← if ← eat "=" then some <$> self.type else pure none
  return .group (bound.toList ++ default.toList)

/-- Reads type parameters, if there are any. -/
def typeParameters (self : Rules) : Reading (List Node) := do
  if ← isSign "<" then angleList (typeParameter self) else return []

/-- Reads a type after a colon, if there is one. -/
def annotation (self : Rules) : Reading (List Node) := do
  if ← eat ":" then return [← self.type] else return []

/-- Reads an argument. -/
def argument (self : Rules) : Reading Node := do
  if ← eat "..." then return .spread (← self.assignment) else self.assignment

/-- Reads arguments in parentheses. -/
def arguments (self : Rules) : Reading (List Node) := do
  expect "("
  commaList ")" (argument self)

/-- Moves past the name of a member after a dot, which may be a private one. -/
def memberWord : Reading Unit := do
  match ← token with
  | .privateName => advance
  | _ =>
    let _ ← anyName

/-- The accesses to members by name that follow an expression. -/
def memberPath : (fuel : Nat) → Node → Reading Node
  | 0, node => pure node
  | fuel + 1, node => do
    if ← eat "." then
      match ← token with
      | .privateName =>
        advance
        memberPath fuel (.group [node])
      | _ => memberPath fuel (.member node (← anyName))
    else return node

/-- Reads what a decorator is: a name with members, or an expression in parentheses. -/
def decoratorName (self : Rules) : Reading Node := do
  if ← eat "(" then
    let inner ← self.expression
    expect ")"
    return .wrapped .parens inner
  else memberPath (← get).fuel (.ident (← identifier))

/-- Reads arguments in parentheses, with type arguments before them or without. -/
def typedArguments (self : Rules) : Reading (List Node × List Node) := do
  let types ← if ← isSign "<" then typeArguments self else pure []
  return (types, ← arguments self)

/-- Reads what follows the `@` of a decorator, which may be called. -/
def decoratorTarget (self : Rules) (start : Nat) : Reading Node := do
  let target ← decoratorName self
  match ← attempt (typedArguments self) with
  | some (types, args) => return .typedCall target types args (← spanFrom start)
  | none => return target

/-- Reads decorators. -/
def decorators (self : Rules) : Reading (List Node) :=
  many do
    if ← eat "@" then
      let start ← offset
      return some (← decoratorTarget self start)
    else return none

/-- The name of a member: a plain name, a string, a number, or an expression in brackets. -/
def memberName (self : Rules) : Reading Node := do
  let start ← offset
  match ← token with
  | .name text _ =>
    advance
    return .ident text
  | .string value =>
    advance
    return .str value (← spanFrom start)
  | .number =>
    advance
    return .atom
  | .sign "[" =>
    advance
    let key ← self.expression
    expect "]"
    return .group [key]
  | _ => fail

/-- A token that the name of a member can begin with. -/
def opensMemberName : Token → Bool
  | .name .. | .string _ | .number | .privateName | .sign "[" => true
  | _ => false

/-- Reads a default value after an equals sign, if there is one, for what stands before it. -/
def withDefault (self : Rules) (node : Node) : Reading Node := do
  if ← eat "=" then return .group [node, ← self.assignment] else return node

/-- A parameter of a function: its binding with the type after it, and what may stand around it. -/
structure Parameter where
  decorators : List Node := []
  pattern : List Node
  value : Option Node := none
deriving Inhabited

/-- What a parameter binds, and to what if it is not given. -/
def Parameter.target (param : Parameter) : List Node :=
  param.pattern ++ param.value.toList

/-- The node of a parameter. -/
def Parameter.node (param : Parameter) : Node :=
  .group (param.decorators ++ param.target)

/-- A token that a parameter can begin with, apart from its modifiers. -/
def opensParameter : Token → Bool
  | .name .. | .sign "[" | .sign "\x7b" => true
  | _ => false

/-- Reads a parameter: decorators, modifiers, a binding, a type and a default value. -/
def parameter (self : Rules) : Reading Parameter := do
  let decorators ← decorators self
  let _ ← many do
    let isModifier ← isAnyWord ["public", "private", "protected", "readonly", "override"]
    if isModifier && (← followedOnLine opensParameter) then
      advance
      return some ()
    else return none
  let _ ← eat "..."
  let binding ← if ← eatWord "this" then pure .atom else self .binding
  let _ ← eat "?"
  let types ← annotation self
  let value ← if ← eat "=" then some <$> self.assignment else pure none
  return { decorators, pattern := binding :: types, value }

/-- Reads parameters in parentheses. -/
def parameters (self : Rules) : Reading (List Parameter) := do
  expect "("
  commaList ")" (parameter self)

/-- Reads the parameters of a type, which have no default values and make nothing of decorators. -/
def signatureParameters (self : Rules) : Reading (List Node) := do
  let params ← parameters self
  if params.any fun param => param.value.isSome then fail
  return params.flatMap Parameter.pattern

/-- Reads what stands in braces, one after the other. The end of the script closes them too. -/
def braced (item : Reading Node) : Reading (List Node) := do
  expect "\x7b"
  let items ← many do
    if (← isSign "\x7d") || (← token) = .endOfText then return none
    return some (← item)
  unless (← token) = .endOfText do expect "\x7d"
  return items

/-- Reads statements in braces. -/
def block (self : Rules) : Reading (List Node) :=
  braced (self .statement)

/-- Reads types with commas between them up to an opening brace. -/
def typeList (self : Rules) : Reading (List Node) :=
  many do
    if ← isSign "\x7b" then return none
    let type ← self.type
    unless ← isSign "\x7b" do expect ","
    return some type

/-- The parts of a function from its type parameters on. The body may be missing. -/
structure FunctionParts where
  types : List Node := []
  params : List Parameter := []
  returned : List Node := []
  body : Option (List Node) := none
deriving Inhabited

/-- The node of a function with its parts. -/
def FunctionParts.node (parts : FunctionParts) (decorators name : List Node) : Node :=
  .function decorators name parts.types (parts.params.map Parameter.node) parts.returned
    (parts.body.getD [])

/-- The node of the constructor of a class, which makes nothing of decorators and types. -/
def FunctionParts.constructorNode (parts : FunctionParts) (name : Node) : Node :=
  { parts with types := [], returned := [] }.node [] [name]

/-- The node of a getter in an object, which makes nothing of parameters. -/
def FunctionParts.getterNode (parts : FunctionParts) (name : Node) : Node :=
  .group (name :: (parts.returned ++ parts.body.getD []))

/-- The node of a setter in an object, which has one parameter and may have one for `this` before
it. -/
def FunctionParts.setterNode (parts : FunctionParts) (name : Node) : Node :=
  .group (name :: ((parts.params.take 2).flatMap Parameter.target ++ parts.body.getD []))

/-- Reads the rest of a function from its type parameters on. -/
def functionRest (self : Rules) : Reading FunctionParts := do
  let types ← typeParameters self
  let params ← parameters self
  let returned ← annotation self
  let body ← if ← isSign "\x7b" then some <$> block self else pure none
  return { types, params, returned, body }

/-- Reads the rest of a function that needs no body; without one a semicolon ends it. -/
def functionOrSignature (self : Rules) : Reading FunctionParts := do
  let parts ← functionRest self
  if parts.body.isNone then semicolon
  return parts

/-- Reads the rest of a function that has a body. -/
def functionWithBody (self : Rules) : Reading FunctionParts := do
  let parts ← functionRest self
  if parts.body.isNone then fail
  return parts

end KeyLint.Script.Grammar
