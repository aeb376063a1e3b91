import KeyLint.Script.Grammar.Expressions
import KeyLint.Script.Grammar.Types

/-!
# Statements of a script

Declarations, control flow, imports and exports.
-/

namespace KeyLint.Script.Grammar

open Reading

/-- What has been read, if it is there. -/
def needed : Option Node → Reading Node
  | some node => pure node
  | none => fail

/-! ## Variables -/

/-- Reads a declarator: a binding with a type, a value, both or neither. -/
def declarator (self : Rules) (noIn : Bool) : Reading Node := do
  let start ← offset
  let binding ← self .binding
  let _ ← eat "!"
  let types ← annotation self
  let init ← if ← eat "=" then some <$> self (.assignment noIn false) else pure none
  return .typedDeclarator binding types init (← spanFrom start)

/-- Reads declarators with commas between them; there may be none before a semicolon. -/
def declarators (self : Rules) (noIn : Bool) : Reading (List Node) := do
  if ← isSign ";" then return []
  let first ← declarator self noIn
  let more ← many do
    if ← eat "," then
      if ← isSign ";" then return none
      return some (← declarator self noIn)
    else return none
  return first :: more

/-- A declarator of a pattern without a value. -/
def lacksValue : Node → Bool
  | .typedDeclarator (.ident _) _ _ _ => false
  | .typedDeclarator _ _ init _ => init.isNone
  | _ => false

/-- A declarator of a variable that is called `let`. -/
def isNamedLet : Node → Bool
  | .typedDeclarator (.ident name) _ _ _ => name = "let".toList
  | _ => false

/-- A token that the binding after `let` can begin with. -/
def opensBinding : Token → Bool
  | .name text _ => text ≠ "in".toList && text ≠ "instanceof".toList
  | .sign "[" | .sign "\x7b" => true
  | _ => false

/-- Moves past the keyword that declares variables: `var`, `const`, `let` before a binding, or
`using` before a name on its line. -/
def variableKeyword : Reading Unit := do
  if ← isAnyWord ["var", "const"] then advance
  else if (← isWord "let") && opensBinding (← following).token then advance
  else
    let _ ← eatWord "await"
    expectWord "using"
    if (← onNewLine) || !(← isIdentifier) || (← isWord "of") then fail

/-- The current token is a keyword that declares variables. -/
def atVariables : Reading Bool :=
  ahead variableKeyword

/-- Reads declared variables up to the end of the statement. What follows them on their line is
passed over. A pattern needs a value, unless it is a constant or only declared, and only `var` can
declare something called `let`. -/
def variableStatement (self : Rules) (ambient : Bool) : Reading Node := do
  let isConst ← isWord "const"
  let isVar ← isWord "var"
  variableKeyword
  let nodes ← declarators self false
  if !ambient && !isConst && nodes.any lacksValue then fail
  if !isVar && nodes.any isNamedLet then fail
  unless ← eatSemicolon do
    let _ ← recover self.expression
    skipStatement
  return .group nodes

/-! ## Loops -/

/-- Reads the variables or the expression at the beginning of the head of a `for` loop. -/
def loopStart (self : Rules) : Reading Node := do
  if ← atVariables then
    variableKeyword
    return .group (← declarators self true)
  else self (.expression true)

/-- Reads the condition of a `for` loop, which may be missing. -/
def loopTest (self : Rules) : Reading (List Node) := do
  if ← eat ";" then return []
  else
    let test ← self.expression
    let _ ← eat ";"
    return [test]

/-- Reads the step of a `for` loop, which may be missing. -/
def loopStep (self : Rules) : Reading (List Node) := do
  if ← isSign ")" then return [] else return [← self.expression]

/-- Reads the rest of a `for` loop with a condition and a step. -/
def loopRest (self : Rules) (start : List Node) : Reading Node := do
  let test ← loopTest self
  let step ← loopStep self
  expect ")"
  return .group (start ++ test ++ step ++ [← self .body])

/-- Reads a `for` loop. -/
def forStatement (self : Rules) : Reading Node := do
  expectWord "for"
  let _ ← eatWord "await"
  expect "("
  if ← eat ";" then loopRest self []
  else
    let start ← loopStart self
    if (← isWord "of") || (← isWord "in") then
      advance
      let source ← self.expression
      expect ")"
      return .group [asPattern start, source, ← self .body]
    else
      expect ";"
      loopRest self [start]

/-- Reads an expression in parentheses. -/
def condition (self : Rules) : Reading Node := do
  expect "("
  let node ← self.expression
  expect ")"
  return node

/-- Reads a `do` loop. -/
def doStatement (self : Rules) : Reading Node := do
  expectWord "do"
  let body ← self .body
  expectWord "while"
  let test ← condition self
  let _ ← eat ";"
  return .doLoop body test

/-! ## Branches -/

/-- Reads an `if` statement. -/
def ifStatement (self : Rules) : Reading Node := do
  expectWord "if"
  let test ← condition self
  let yes ← self .body
  let no ← if ← eatWord "else" then pure [← self .body] else pure []
  return .group (test :: yes :: no)

/-- Reads what stands before the colon of a case. -/
def caseTest (self : Rules) : Reading (List Node) := do
  if ← eatWord "default" then return []
  else
    expectWord "case"
    return [← self.expression]

/-- Reads a case of a `switch` statement. -/
def switchCase (self : Rules) : Reading Node := do
  let test ← caseTest self
  expect ":"
  let body ← many do
    if (← isAnyWord ["case", "default"]) || (← isSign "\x7d") then return none
    return some (← self .statement)
  return .group (test ++ body)

/-- Reads a `switch` statement. -/
def switchStatement (self : Rules) : Reading Node := do
  expectWord "switch"
  let value ← condition self
  expect "\x7b"
  let cases ← many do
    if ← isSign "\x7d" then return none else return some (← switchCase self)
  expect "\x7d"
  return .group (value :: cases)

/-- Reads the parameter of a handler, which may be missing. -/
def handlerParameter (self : Rules) : Reading (List Node) := do
  if ← eat "(" then
    let param ← self .binding
    let types ← annotation self
    expect ")"
    return param :: types
  else return []

/-- Reads the handler of errors in a `try` statement, if there is one. -/
def errorHandler (self : Rules) : Reading (List Node) := do
  if ← eatWord "catch" then
    let param ← handlerParameter self
    return param ++ (← block self)
  else return []

/-- Reads the handlers of a `try` statement, of which each may be missing. -/
def handlers (self : Rules) : Reading (List Node) := do
  let handler ← errorHandler self
  let finalizer ← if ← eatWord "finally" then block self else pure []
  return handler ++ finalizer

/-- Reads a `try` statement. -/
def tryStatement (self : Rules) : Reading Node := do
  expectWord "try"
  let body ← block self
  return .group (body ++ (← handlers self))

/-! ## Jumps -/

/-- Reads `throw` and the value after it, which stands on its line. -/
def throwStatement (self : Rules) : Reading Node := do
  expectWord "throw"
  if ← onNewLine then fail
  let value ← self.expression
  semicolon
  return value

/-- Reads `return` and the value after it. -/
def returnStatement (self : Rules) : Reading Node := do
  expectWord "return"
  let ends := (← onNewLine) || (← isAnySign [";", "\x7d"]) || (← token) = .endOfText
  let value ← if ends then pure [] else pure [← self.expression]
  semicolon
  return .group value

/-- Reads `break` or `continue` and the label after it. -/
def labelJump : Reading Node := do
  advance
  unless ← onNewLine do
    if ← isIdentifier then
      let _ ← identifier
  semicolon
  return .group []

/-! ## Declarations -/

/-- Reads a function declaration from its keyword on; its name may be missing if it is exported as
the default. -/
def functionDeclaration (self : Rules) (needsName : Bool) : Reading Node := do
  let _ ← eatWord "async"
  expectWord "function"
  let _ ← eat "*"
  if needsName || (← isIdentifier) then
    let _ ← identifier
  return (← functionOrSignature self).node [] []

/-- Reads a class declaration, after its decorators. -/
def classDeclaration (self : Rules) (needsName : Bool) (decorators : List Node) :
    Reading Node := do
  let _ ← eatWord "abstract"
  classRest self (Operand.node <$> operand self) needsName decorators

/-- Reads a member of an enumeration. An expression in brackets is no name for it and does not
count. -/
def enumMember (self : Rules) : Reading Node := do
  let _ ← memberName self
  withDefault self .atom

/-- Reads an enumeration from its keyword on. -/
def enumDeclaration (self : Rules) : Reading Node := do
  let _ ← eatWord "const"
  expectWord "enum"
  let _ ← identifier
  expect "\x7b"
  return .group (← commaList "\x7d" (enumMember self))

/-- Reads an interface from its keyword on. -/
def interfaceDeclaration (self : Rules) : Reading Node := do
  expectWord "interface"
  let _ ← identifier
  let types ← typeParameters self
  let bases ← if ← eatWord "extends" then typeList self else pure []
  return .group (types ++ bases ++ [← objectType self])

/-- Reads the declaration of a type's name from its keyword on. -/
def typeDeclaration (self : Rules) : Reading Node := do
  expectWord "type"
  let _ ← identifier
  let types ← typeParameters self
  expect "="
  let node ← self.type
  semicolon
  return .group (types ++ [node])

/-- Reads a namespace or the declaration of a module from its keyword on. Only a module that is
named by a string may have no body. -/
def namespaceDeclaration (self : Rules) : Reading Node := do
  advance
  match ← token with
  | .string _ =>
    advance
    if ← isSign "\x7b" then return .group (← braced (self .item))
    semicolon
    return .group []
  | _ =>
    let _ ← identifier
    dottedNames
    return .group (← braced (self .item))

/-- Reads a block that declares global names. -/
def globalDeclaration (self : Rules) : Reading Node := do
  expectWord "global"
  return .group (← braced (self .item))

/-- A token that is a name or a string. -/
def isModuleName : Token → Bool
  | .name .. | .string _ => true
  | _ => false

/-- Reads a declaration, if there is one: functions, classes, variables, types, enumerations,
namespaces, and any of them after `declare`. After `export` or `declare` the name of what is
declared need not stand on the line of its keyword. -/
def declaration? (self : Rules) (introduced ambient : Bool) (fuel : Nat) : Reading (Option Node) :=
  match fuel with
  | 0 => return none
  | fuel + 1 => do
    let next ← following
    let nextIsWord (word : String) : Bool := next.token = .name word.toList true
    let onLine := introduced || !next.newline
    if ← isWord "function" then some <$> functionDeclaration self true
    else if (← isWord "async") && nextIsWord "function" && !next.newline then
      some <$> functionDeclaration self true
    else if ← isWord "class" then some <$> classDeclaration self true []
    else if (← isWord "abstract") && nextIsWord "class" then
      some <$> classDeclaration self true []
    else if ((← isWord "enum") && onLine) || ((← isWord "const") && nextIsWord "enum") then
      some <$> enumDeclaration self
    else if ← atVariables then some <$> variableStatement self ambient
    else if (← isWord "namespace") && isThingName next.token
        && (introduced || isMention next.token) then
      some <$> namespaceDeclaration self
    else if !onLine then return none
    else if (← isWord "type") && isNameToken next.token then attempt (typeDeclaration self)
    else if (← isWord "interface") && isNameToken next.token then
      some <$> interfaceDeclaration self
    else if (← isWord "module") && isModuleName next.token then
      attempt (namespaceDeclaration self)
    else if (← isWord "global") && next.token = .sign "\x7b" then some <$> globalDeclaration self
    else if (← isWord "declare") && isNameToken next.token then
      attempt do
        advance
        needed (← declaration? self true true fuel)
    else return none

/-- Reads a declaration, if there is one. -/
def declaration (self : Rules) (introduced : Bool) : Reading (Option Node) := do
  declaration? self introduced false (← get).fuel

/-! ## Imports and exports -/

/-- Reads the name of a module. -/
def moduleName : Reading Unit := do
  match ← token with
  | .string _ => advance
  | _ => fail

/-- Reads the attributes of an import, if there are any. -/
def importAttributes (self : Rules) : Reading (List Node) := do
  if (← isAnyWord ["with", "assert"]) && !(← onNewLine) then
    advance
    expect "\x7b"
    return [.object (← commaList "\x7d" (objectMember self))]
  else return []

/-- Reads a name in the list of an import or an export; strings are names here. -/
def moduleExportName : Reading Unit := do
  match ← token with
  | .string _ => advance
  | _ =>
    let _ ← anyName

/-- Reads a name in the list of an import or an export, with another name for it or without. -/
def importName : Reading Unit := do
  moduleExportName
  if ← eatWord "as" then moduleExportName
  unless ← isAnySign [",", "\x7d"] do fail

/-- Reads an item in the list of an import or an export; `type` may stand before it. -/
def importItem : Reading Unit := do
  unless (← attempt importName).isSome do
    expectWord "type"
    importName

/-- Reads the list of an import or an export in braces. -/
def importList : Reading Unit := do
  expect "\x7b"
  let _ ← commaList "\x7d" importItem

/-- Reads `from` and the name of a module, up to the end of the statement. -/
def fromModule (self : Rules) : Reading Node := do
  expectWord "from"
  moduleName
  let attributes ← importAttributes self
  semicolon
  return .group attributes

/-- Reads all names of a module under one: `* as name`. -/
def importAll : Reading Unit := do
  expect "*"
  expectWord "as"
  let _ ← identifier

/-- Reads what an import makes known, besides a default: a list or all names. -/
def importNames : Reading Unit := do
  if ← isSign "*" then importAll else importList

/-- Reads the rest of an import that gives a name to a module or to a name in one. -/
def importAlias : Reading Node := do
  expect "="
  if (← isWord "require") && (← following).token = .sign "(" then
    advance
    expect "("
    moduleName
    expect ")"
  else
    let _ ← identifier
    dottedNames
  semicolon
  return .group []

/-- Reads what follows `import`, where `type` has been read already. -/
def importRest (self : Rules) : Reading Node := do
  match ← token with
  | .string _ =>
    moduleName
    let attributes ← importAttributes self
    let _ ← eatSemicolon
    return .group attributes
  | .sign _ =>
    importNames
    fromModule self
  | _ =>
    let _ ← mention
    if ← isSign "=" then importAlias
    else
      if ← eat "," then importNames
      fromModule self

/-- Reads an import. -/
def importStatement (self : Rules) : Reading Node := do
  expectWord "import"
  if ← isWord "type" then
    let typed ← attempt do
      advance
      importRest self
    if let some node := typed then return node
  importRest self

/-- Reads what is exported as the default. -/
def exportDefault (self : Rules) (decorators : List Node) : Reading Node := do
  let next ← following
  if (← isWord "function") || ((← isWord "async") && !next.newline
      && next.token = .name "function".toList true) then
    functionDeclaration self false
  else if (← isWord "class") || ((← isWord "abstract")
      && next.token = .name "class".toList true) then
    classDeclaration self false decorators
  else if ← isSign "@" then
    let own ← Grammar.decorators self
    classDeclaration self false (decorators ++ own)
  else if (← isWord "interface") && isNameToken next.token then interfaceDeclaration self
  else
    let node ← self.assignment
    semicolon
    return node

/-- Reads a class that decorators have been read for. -/
def decoratedClass (self : Rules) (decorators : List Node) : Reading Node := do
  let own ← Grammar.decorators self
  let _ ← eatWord "declare"
  classDeclaration self true (decorators ++ own)

/-- Reads an export of names, with a module they come from or without. -/
def exportNames (self : Rules) : Reading Node := do
  let _ ← eatWord "type"
  if ← eat "*" then
    if ← eatWord "as" then moduleExportName
    fromModule self
  else
    importList
    if ← isWord "from" then fromModule self
    else
      let _ ← eatSemicolon
      return .group []

/-- Reads an export. Decorators may have been read before it. -/
def exportStatement (self : Rules) (decorators : List Node) : Reading Node := do
  expectWord "export"
  if ← eatWord "default" then exportDefault self decorators
  else if !decorators.isEmpty || (← isSign "@") then decoratedClass self decorators
  else if ← eat "=" then
    let node ← self.expression
    semicolon
    return node
  else if ← isWord "import" then importStatement self
  else if (← isWord "as") && (← followedOnLine fun t => t = .name "namespace".toList true) then
    advance
    advance
    let _ ← identifier
    semicolon
    return .group []
  else if (← isSign "*") || (← isSign "\x7b") then exportNames self
  else if (← isWord "type")
      && (← followedOnLine fun t => t = .sign "*" || t = .sign "\x7b") then exportNames self
  else needed (← declaration self true)

/-! ## Statements -/

/-- Reads a statement that begins with decorators. They count only for a class. -/
def decoratedStatement (self : Rules) : Reading Node := do
  let decorators ← decorators self
  if ← isAnyWord ["class", "abstract", "declare"] then decoratedClass self decorators
  else self .statement

/-- Reads an expression that is a statement, or a statement with a label. -/
def expressionStatement (self : Rules) : Reading Node := do
  if isMention (← token) && (← following).token = .sign ":" then
    advance
    advance
    self .body
  else
    let node ← self.expression
    semicolon
    return node

/-- Reads a statement that begins with a word of its own, if there is one. -/
def wordStatement? (self : Rules) : Reading (Option Node) := do
  if ← isWord "if" then some <$> ifStatement self
  else if ← isWord "for" then some <$> forStatement self
  else if ← isAnyWord ["while", "with"] then
    advance
    let test ← condition self
    return some (.group [test, ← self .body])
  else if ← isWord "do" then some <$> doStatement self
  else if ← isWord "switch" then some <$> switchStatement self
  else if ← isWord "try" then some <$> tryStatement self
  else if ← isAnyWord ["catch", "finally"] then
    let _ ← recover (handlers self)
    return some (.group [])
  else if ← isWord "return" then some <$> returnStatement self
  else if ← isWord "throw" then some <$> throwStatement self
  else if ← isAnyWord ["break", "continue"] then some <$> labelJump
  else if ← isWord "debugger" then
    advance
    semicolon
    return some (.group [])
  else return none

/-- Reads a statement. -/
def statementRule (self : Rules) : Reading Node := do
  match ← token with
  | .sign "\x7b" => return .group (← block self)
  | .sign ";" =>
    advance
    return .group []
  | .sign "@" => decoratedStatement self
  | .name _ true =>
    if let some node ← wordStatement? self then return node
    if let some node ← declaration self false then return node
    expressionStatement self
  | _ => expressionStatement self

/-- Reads what stands after a label or is the body of a branch or a loop: a statement that declares
no variables, unless with `var`. -/
def bodyRule (self : Rules) : Reading Node := do
  let isEnum := (← following).token = .name "enum".toList true
  if (← atVariables) && !(← isWord "var") && !isEnum then expressionStatement self
  else statementRule self

/-- Reads an export, or a statement, that begins with decorators. -/
def decoratedItem (self : Rules) : Reading Node := do
  let decorated ← attempt do
    let decorators ← decorators self
    unless ← isWord "export" do fail
    return decorators
  match decorated with
  | some decorators => exportStatement self decorators
  | none => decoratedStatement self

/-- Reads a statement, an import or an export. -/
def itemRule (self : Rules) : Reading Node := do
  let next ← following
  if (← isWord "import") && next.token ≠ .sign "(" && next.token ≠ .sign "." then
    importStatement self
  else if ← isWord "export" then exportStatement self []
  else if ← isSign "@" then decoratedItem self
  else statementRule self

end KeyLint.Script.Grammar
