import KeyLint.Script.Grammar.Expressions

/-!
# Types of a script

The only expressions in types are the computed names of members and the attributes of imports. Type
parameters stand before the parameters of a function and are visited after them.
-/

namespace KeyLint.Script.Grammar

open Reading

/-- Reads a function type from its type parameters up to its arrow. -/
def functionTypeHead (self : Rules) : Reading Node := do
  let types ← typeParameters self
  let params ← signatureParameters self
  expect "=>"
  return .swapped types params

/-- Reads the type of a constructor from its keyword up to its arrow. -/
def constructorTypeHead (self : Rules) : Reading Node := do
  let _ ← eatWord "abstract"
  expectWord "new"
  functionTypeHead self

/-! ## Members of object types -/

/-- Reads the rest of a signature from its type parameters on. -/
def signature (self : Rules) : Reading Node := do
  let types ← typeParameters self
  let params ← signatureParameters self
  return .swapped types (params ++ (← annotation self))

/-- Reads a sign that adds or removes a modifier in a mapped type, before `readonly` or `?`. -/
def mappedModifier : Reading Unit := do
  if ← isAnySign ["+", "-"] then advance

/-- Reads a member of a mapped type: `[K in T as U]?: V`. -/
def mappedMember (self : Rules) : Reading (List Node) := do
  mappedModifier
  let _ ← eatWord "readonly"
  expect "["
  let _ ← anyName
  expectWord "in"
  let keys ← self.type
  let renamed ← if ← eatWord "as" then pure [← self.type] else pure []
  expect "]"
  mappedModifier
  let _ ← eat "?"
  return keys :: renamed ++ (← annotation self)

/-- Reads an index signature: `[key: K]: V`. -/
def indexSignature (self : Rules) : Reading (List Node) := do
  expect "["
  let _ ← anyName
  expect ":"
  let key ← self.type
  expect "]"
  return key :: (← annotation self)

/-- Reads a property or a method of an object type. -/
def namedSignature (self : Rules) : Reading (List Node) := do
  let name ← memberName self
  let _ ← eat "?"
  if (← isSign "(") || (← isSign "<") then return [name, ← signature self]
  else return name :: (← annotation self)

/-- Reads a member of an object type. -/
def typeMember (self : Rules) : Reading (List Node) := do
  if let some nodes ← attempt (mappedMember self) then return nodes
  let _ ← many do
    let isModifier ← isAnyWord ["readonly", "get", "set", "static"]
    if isModifier && (← followedOnLine opensMemberName) then
      advance
      return some ()
    else return none
  if let some nodes ← attempt (indexSignature self) then return nodes
  if (← isSign "(") || (← isSign "<") then return [← signature self]
  else
    let next ← following
    if (← isWord "new") && (next.token = .sign "(" || next.token = .sign "<") then
      advance
      return [← signature self]
    else namedSignature self

/-- Reads an object type. -/
def objectType (self : Rules) : Reading Node := do
  expect "\x7b"
  let members ← many do
    if ← isSign "\x7d" then return none
    let nodes ← typeMember self
    unless ← eat "," do semicolon
    return some (Node.group nodes)
  expect "\x7d"
  return .group members

/-! ## Simple types -/

/-- Reads a member of a tuple. -/
def tupleMember (self : Rules) : Reading Node := do
  let _ ← eat "..."
  let _ ← attempt do
    let _ ← anyName
    let _ ← eat "?"
    expect ":"
  let type ← self.type
  let _ ← eat "?"
  return type

/-- Reads the names after a dot that follow a name. -/
def dottedNames : Reading Unit := do
  let _ ← many do
    if ← eat "." then
      memberWord
      return some ()
    else return none

/-- Reads type arguments on the same line, if there are any. -/
def argumentsOnLine (self : Rules) : Reading Node := do
  if (← isSign "<") && !(← onNewLine) then return .group (← typeArguments self)
  else return .group []

/-- Reads the attributes of an imported module, after the comma before them: `{ with: { … } }`. -/
def typeAttributes (self : Rules) : Reading (List Node) := do
  if ← eat "\x7b" then
    expectWord "with"
    expect ":"
    expect "\x7b"
    let members ← commaList "\x7d" (objectMember self)
    let _ ← eat ","
    expect "\x7d"
    return [.object members]
  else return []

/-- Reads the type of an imported module. Its attributes are visited last. -/
def importType (self : Rules) : Reading Node := do
  expectWord "import"
  expect "("
  advance
  let attributes ← if ← eat "," then typeAttributes self else pure []
  expect ")"
  dottedNames
  return .swapped attributes [← argumentsOnLine self]

/-- Reads the rest of a template literal type, from the first piece on. -/
def templateTypeRest (self : Rules) : (fuel : Nat) → Place → Reading (List Node)
  | 0, _ => fail
  | fuel + 1, place => do
    match readPiece? (← get).fuel place with
    | none => fail
    | some piece =>
      moveTo piece.next
      if piece.isLast then return []
      let part ← self.type
      unless ← isSign "\x7d" do fail
      let rest := (← get).here.drop 1
      return part :: (← templateTypeRest self fuel rest)

/-- Words that are types although nothing can be called so. -/
def typeWords : List String :=
  ["this", "void", "null", "true", "false"]

/-- Reads a type that is neither an array nor composed. -/
def simpleType (self : Rules) : Reading Node := do
  match ← token with
  | .string _ | .number =>
    advance
    return .group []
  | .sign "-" =>
    advance
    unless (← token) = .number do fail
    advance
    return .group []
  | .sign "\x60" => do
    let c ← get
    return .group (← templateTypeRest self c.fuel c.next)
  | .sign "\x7b" => objectType self
  | .sign "[" =>
    advance
    return .group (← commaList "]" (tupleMember self))
  | .sign "(" =>
    advance
    let inner ← self.type
    expect ")"
    return inner
  | .name .. =>
    if ← isWord "typeof" then
      advance
      if ← isWord "import" then importType self
      else
        let _ ← anyName
        dottedNames
        argumentsOnLine self
    else if ← isWord "import" then importType self
    else if ← isAnyWord typeWords then
      advance
      return .group []
    else
      let _ ← identifier
      dottedNames
      argumentsOnLine self
  | _ => fail

/-- Reads a type with the array and index brackets after it. -/
def arrayType (self : Rules) : Reading Node := do
  let element ← simpleType self
  let indexes ← many do
    if (← isSign "[") && !(← onNewLine) then
      advance
      if ← eat "]" then return some (Node.group [])
      let index ← self.type
      expect "]"
      return some index
    else return none
  return .group (element :: indexes)

/-- A token that cannot begin a type, so that the word before it is not an operator. -/
def endsType : Token → Bool
  | .sign sign => !(["(", "[", "\x7b", "-", "\x60"].contains sign)
  | .endOfText | .bad => true
  | _ => false

/-- Reads a type with its operators. A bound on an inferred type is one also before a question mark
if the type is itself the bound of a conditional type. -/
def operatorType (self : Rules) (inBound : Bool) : Reading Node := do
  let _ ← many do
    let c ← following
    if (← isAnyWord ["keyof", "unique", "readonly"]) && !endsType c.token then
      advance
      return some ()
    else return none
  let c ← following
  if (← isWord "infer") && !endsType c.token then
    advance
    let _ ← anyName
    let bound ← attempt do
      expectWord "extends"
      let bound ← arrayType self
      if !inBound && (← isSign "?") then fail
      return bound
    return .group bound.toList
  else arrayType self

/-- Reads types with a sign between them, which may also stand before the first. -/
def composedType (sign : String) (part : Reading Node) : Reading Node := do
  let _ ← eat sign
  let first ← part
  let more ← many do
    if ← eat sign then return some (← part) else return none
  return .group (first :: more)

/-- Reads a union of intersections. -/
def unionType (self : Rules) (inBound : Bool) : Reading Node :=
  composedType "|" (composedType "&" (operatorType self inBound))

/-- Reads the head of a function type or of the type of a constructor, if there is one. -/
def typeHead? (self : Rules) : Reading (Option Node) := do
  if (← isSign "<") || (← isSign "(") then attempt (functionTypeHead self)
  else if ← isAnyWord ["new", "abstract"] then attempt (constructorTypeHead self)
  else return none

/-- Reads a type that is no conditional. -/
def plainType (self : Rules) (inBound : Bool) : Reading Node := do
  match ← typeHead? self with
  | some head => return .group [head, ← self.type]
  | none => unionType self inBound

/-- A token that is a name. -/
def isNameToken : Token → Bool
  | .name .. => true
  | _ => false

/-- Reads the word before the name of an argument that a function is sure about, if it is there. -/
def assertion : Reading Bool := do
  if (← isWord "asserts") && (← followedOnLine isNameToken) then
    advance
    return true
  else return false

/-- Reads what a function says about an argument: `x is T`, `asserts x`, `asserts x is T`. -/
def predicateType (self : Rules) : Reading Node := do
  let asserts ← assertion
  let _ ← anyName
  if !(← onNewLine) && (← isWord "is") then
    advance
    self.type
  else if asserts then return .group []
  else fail

/-- Reads a type. -/
def typeRule (self : Rules) : Reading Node := do
  if let some node ← attempt (predicateType self) then return node
  let checked ← plainType self false
  if (← isWord "extends") && !(← onNewLine) then
    advance
    let bound ← plainType self true
    expect "?"
    let yes ← self.type
    expect ":"
    return .group [checked, bound, yes, ← self.type]
  else return checked

end KeyLint.Script.Grammar
