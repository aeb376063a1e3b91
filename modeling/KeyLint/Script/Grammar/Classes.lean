import KeyLint.Script.Grammar.Lists

/-!
# Classes of a script

Fields, methods, accessors, constructors, signatures and static blocks, with all their modifiers.
-/

namespace KeyLint.Script.Grammar

open Reading

/-- What has been read before the name of a class member. -/
structure MemberHead where
  modifiers : Modifiers := {}
  isAccessor : Bool := false
deriving Repr, DecidableEq, Inhabited

/-- A token that shows that the word before it is a modifier. -/
def followsModifier (token : Token) : Bool :=
  opensMemberName token || token = .sign "*" || token = .sign "\x7b"

/-- Reads a modifier, if the current token is one: a word with the rest of a member after it. -/
def modifier (head : MemberHead) : Reading (Option MemberHead) := do
  let c ← following
  if !followsModifier c.token then return none
  let onLine := !c.newline && c.token ≠ .sign "\x7b"
  let m := head.modifiers
  match ← token with
  | .name text true =>
    let text := String.ofList text
    if text = "static" && c.token ≠ .sign "\x7b" then
      return some { head with modifiers := { m with isStatic := true } }
    else if !onLine then return none
    else if text = "readonly" then
      return some { head with modifiers := { m with readonly := true } }
    else if text = "private" then
      return some { head with modifiers := { m with access := some .ownClass } }
    else if text = "protected" then
      return some { head with modifiers := { m with access := some .subclasses } }
    else if text = "public" then
      return some { head with modifiers := { m with access := some .everyone } }
    else if text = "accessor" then return some { head with isAccessor := true }
    else if text = "declare" || text = "abstract" || text = "override" then return some head
    else return none
  | _ => return none

/-- Reads modifiers after those already read. -/
def memberHead : (fuel : Nat) → MemberHead → Reading MemberHead
  | 0, head => pure head
  | fuel + 1, head => do
    match ← modifier head with
    | some head =>
      advance
      memberHead fuel head
    | none => return head

/-- What stands before the name of a method. -/
inductive MethodHead where
  | nothing
  | getter
  | setter
  /-- `async`, `*` or both. -/
  | other
deriving Repr, DecidableEq, Inhabited

/-- Reads `get`, `set`, `async` or `*` before the name of a method. In a class `async` has to stand on
the line of the name. -/
def methodHead (inClass : Bool) : Reading MethodHead := do
  let c ← following
  if (← isWord "get") && opensMemberName c.token then
    advance
    return .getter
  else if (← isWord "set") && opensMemberName c.token then
    advance
    return .setter
  else if (← isWord "async") && !(inClass && c.newline)
      && (opensMemberName c.token || c.token = .sign "*") then
    advance
    let _ ← eat "*"
    return .other
  else if ← eat "*" then return .other
  else return .nothing

/-- The name of a class member and whether it is a private name. -/
def classMemberName (self : Rules) : Reading (Node × Bool) := do
  match ← token with
  | .privateName =>
    advance
    return (.atom, true)
  | _ => return (← memberName self, false)

/-- Reads an index signature in a class: `[key: K]: V`. -/
def classIndexSignature (self : Rules) : Reading Node := do
  expect "["
  let _ ← anyName
  expect ":"
  let key ← self.type
  expect "]"
  let value ← annotation self
  semicolon
  return .group (key :: value)

/-- Reads the rest of a field after its name. After a field that is more than a name, the next
member may follow without a semicolon. -/
def fieldRest (self : Rules) (head : MemberHead) (decorators : List Node) (name : Node)
    (isPrivateName isDefinite : Bool) (start : Nat) : Reading Node := do
  let types ← annotation self
  let value ← if ← eat "=" then some <$> self.assignment else pure none
  let span ← spanFrom start
  unless ← eatSemicolon do
    if !isDefinite && types.isEmpty && value.isNone then fail
  if isPrivateName || head.isAccessor then return .otherField decorators name types value
  else return .typedField head.modifiers name types value decorators span

/-- The name of a method that makes it the constructor of its class. -/
def isConstructorName : Node → Bool
  | .ident name => name = "constructor".toList
  | .str value _ => value = some "constructor".toList
  | _ => false

/-- Reads a member of a class, after its decorators. It begins with them. -/
def classMember (self : Rules) (start : Nat) (decorators : List Node) : Reading Node := do
  let c ← following
  if (← isWord "static") && c.token = .sign "\x7b" then
    advance
    return .group (← block self)
  let head ← memberHead (← get).fuel {}
  if let some node ← attempt (classIndexSignature self) then return node
  let method ← methodHead true
  let (name, isPrivateName) ← classMemberName self
  let isDefinite ← isSign "!"
  if isDefinite || (← isSign "?") then advance
  if method ≠ .nothing || (← isSign "(") || (← isSign "<") then
    let parts ← functionOrSignature self
    if method = .nothing && isConstructorName name then return parts.constructorNode name
    else return parts.node decorators [name]
  else fieldRest self head decorators name isPrivateName isDefinite start

/-- Reads the members of a class in braces. -/
def classBody (self : Rules) : Reading (List Node) := do
  expect "\x7b"
  let members ← many do
    if ← isSign "\x7d" then return none
    if ← eat ";" then return some (Node.group [])
    let start ← offset
    return some (← classMember self start (← decorators self))
  expect "\x7d"
  return members

/-- Reads the name of a class, which may be missing unless it is needed. -/
def className (needsName : Bool) : Reading Unit := do
  let first ← token
  let isNamed := isMention first || (needsName && isThingName first)
  if isNamed && !(← isWord "implements") then
    let _ ← identifier
  else if needsName then fail

/-- Reads what a class extends and its type arguments. -/
def typedSuperclass (self : Rules) (superclass : Reading Node) : Reading (Node × List Node) := do
  match ← superclass with
  | .instantiated parent types => return (parent, types)
  | parent =>
    let types ← if ← isSign "<" then typeArguments self else pure []
    return (parent, types)

/-- Reads what a class extends, if it does, and its type arguments. `superclass` reads the expression
after `extends`; further ones after commas do not count. -/
def heritage (self : Rules) (superclass : Reading Node) : Reading (List Node × List Node) := do
  if ← eatWord "extends" then
    let (parent, types) ← typedSuperclass self superclass
    let _ ← many do
      if ← eat "," then some <$> superclass else return none
    return ([parent], types)
  else return ([], [])

/-- Reads a class from its keyword on. -/
def classRest (self : Rules) (superclass : Reading Node) (needsName : Bool)
    (decorators : List Node) : Reading Node := do
  expectWord "class"
  className needsName
  let types ← typeParameters self
  let (parent, arguments) ← heritage self superclass
  let interfaces ← if ← eatWord "implements" then typeList self else pure []
  let members ← classBody self
  return .classDef decorators types parent (arguments ++ interfaces) members

end KeyLint.Script.Grammar
