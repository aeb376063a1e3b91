import KeyLint.Script.Token
import KeyLint.Script.Tree

/-!
# Reading along a script

The state of reading is the current token and what surrounds it. A reading either moves on and has a
result or fails; failing leaves the state as it was, so that a grammar can try one form and then
another.
-/

namespace KeyLint.Script

/-- Why a script cannot be read: what stands at an offset is not what has to stand there, or the
script is nested too deeply. -/
inductive SyntaxError where
  | unexpected (offset : Nat)
  | tooDeep
deriving Repr, DecidableEq, Inhabited

/-- What is said about a script that cannot be read. -/
def SyntaxError.message : SyntaxError → Text
  | .unexpected _ => "Unexpected token".toList
  | .tooDeep => "Too deeply nested".toList

/-- The state of reading. -/
structure Cursor where
  /-- At least the number of characters of the script. -/
  fuel : Nat
  /-- Where the current token begins. -/
  here : Place
  /-- The current token. -/
  token : Token
  /-- Where the current token ends. -/
  next : Place
  /-- A line ends right before the current token. -/
  newline : Bool
  /-- Where the token before the current one ends. -/
  lastEnd : Nat
deriving Repr, Inhabited

/-- The state of reading after the blanks at a place. -/
def Cursor.after (fuel : Nat) (place : Place) : Cursor :=
  let (newline, here) := skipBlanks fuel false place
  let (token, next) := readToken fuel here
  { fuel, here, token, next, newline, lastEnd := place.offset }

/-- How a reading fails: where it could not go on, or because the script is nested too deeply. -/
inductive Failure where
  | unexpected (stop : Cursor)
  | tooDeep
deriving Repr, Inhabited

/-- What is wrong with a script that could not be read. -/
def Failure.error : Failure → SyntaxError
  | .unexpected stop => .unexpected stop.here.offset
  | .tooDeep => .tooDeep

/-- Something that reads along a script. -/
abbrev Reading := StateT Cursor (Except Failure)

namespace Reading

variable {α : Type}

/-- Nothing fits at the current token. -/
def fail : Reading α := do
  throw (.unexpected (← get))

/-- Moves on to a place. -/
def moveTo (place : Place) : Reading Unit :=
  modify fun c => Cursor.after c.fuel place

/-- Moves on to the next token. -/
def advance : Reading Unit := do
  let c ← get
  match c.token with
  | .bad => fail
  | _ => moveTo c.next

/-- Tries a reading; if it fails, nothing has happened. -/
def attempt (r : Reading α) : Reading (Option α) := fun c =>
  match r c with
  | .ok (a, c) => .ok (some a, c)
  | .error _ => .ok (none, c)

/-- Tries a reading; if it fails, goes on from where it could not. -/
def recover (r : Reading α) : Reading (Option α) := fun c =>
  match r c with
  | .ok (a, c) => .ok (some a, c)
  | .error (.unexpected stop) => .ok (none, stop)
  | .error .tooDeep => .error .tooDeep

/-- Tries a reading; if what it reads is not there at all, nothing has happened. -/
def optional (r : Reading α) : Reading (Option α) := fun c =>
  match r c with
  | .ok (a, c) => .ok (some a, c)
  | .error (.unexpected stop) =>
    if stop.here.offset = c.here.offset then .ok (none, c) else .error (.unexpected stop)
  | .error .tooDeep => .error .tooDeep

/-- Whether a reading would succeed from here; nothing happens. -/
def ahead (r : Reading α) : Reading Bool := fun c =>
  match r c with
  | .ok _ => .ok (true, c)
  | .error _ => .ok (false, c)

/-- Repeats a reading at most `fuel` times, as long as it has results. -/
def repeatUpTo (r : Reading (Option α)) : (fuel : Nat) → Reading (List α)
  | 0 => pure []
  | fuel + 1 => do
    match ← r with
    | none => pure []
    | some a => return a :: (← repeatUpTo r fuel)

/-- Repeats a reading as long as it has results; each of them takes at least one token. -/
def many (r : Reading (Option α)) : Reading (List α) := do
  repeatUpTo r (← get).fuel

/-! ## Looking at the current token -/

/-- The current token. -/
def token : Reading Token := return (← get).token

/-- A line ends right before the current token. -/
def onNewLine : Reading Bool := return (← get).newline

/-- The offset of the current token. -/
def offset : Reading Nat := return (← get).here.offset

/-- The span from an offset up to the end of the last token. -/
def spanFrom (start : Nat) : Reading Span := return ⟨start, (← get).lastEnd⟩

/-- The current token is a sign. -/
def isSign (sign : String) : Reading Bool := return (← token) = .sign sign

/-- The current token is one of some signs. -/
def isAnySign (signs : List String) : Reading Bool := do
  match ← token with
  | .sign sign => return signs.contains sign
  | _ => return false

/-- The current token is a word without escapes. -/
def isWord (word : String) : Reading Bool := return (← token) = .name word.toList true

/-- The current token is one of some words. -/
def isAnyWord (words : List String) : Reading Bool := do
  match ← token with
  | .name text true => return words.any fun word => word.toList = text
  | _ => return false

/-- The current token is a name of any kind. -/
def isName : Reading Bool := do
  match ← token with
  | .name .. => return true
  | _ => return false

/-! ## Moving past expected tokens -/

/-- Moves past a sign if it is the current token. -/
def eat (sign : String) : Reading Bool := do
  if ← isSign sign then
    advance
    return true
  else return false

/-- Moves past a word if it is the current token. -/
def eatWord (word : String) : Reading Bool := do
  if ← isWord word then
    advance
    return true
  else return false

/-- Moves past a sign. -/
def expect (sign : String) : Reading Unit := do
  unless ← eat sign do fail

/-- Moves past a word. -/
def expectWord (word : String) : Reading Unit := do
  unless ← eatWord word do fail

/-- Moves past one character of the current token, which has to begin with it. -/
def expectChar (c : Char) : Reading Unit := do
  let here := (← get).here
  if here.rest.head? = some c then moveTo (here.drop 1) else fail

/-- Moves past the end of a statement, if it ends here: with a semicolon, or with nothing if a
brace, the end of the script or a new line follows. -/
def eatSemicolon : Reading Bool := do
  if ← eat ";" then return true
  else return (← isSign "\x7d") || (← token) = .endOfText || (← onNewLine)

/-- Moves past the end of a statement. -/
def semicolon : Reading Unit := do
  unless ← eatSemicolon do fail

/-- Moves past tokens up to and past the end of a statement, or up to something that is no token. -/
def skipStatement : Reading Unit := do
  let _ ← many do
    if (← eatSemicolon) || (← token) = .bad then return none
    advance
    return some ()

/-- Words that are not names of things. -/
def reservedWords : List String :=
  ["await", "break", "case", "catch", "class", "const", "continue", "debugger", "default", "delete",
   "do", "else", "enum", "export", "extends", "false", "finally", "for", "function", "if", "import",
   "in", "instanceof", "new", "null", "return", "super", "switch", "this", "throw", "true", "try",
   "typeof", "var", "void", "while", "with"]

/-- Words that a declaration may use as a name, but no expression. -/
def declarableWords : List String :=
  ["implements", "interface", "package", "private", "protected", "public", "static", "yield"]

/-- A token that is a name that things can have. -/
def isThingName : Token → Bool
  | .name text _ => !reservedWords.any fun word => word.toList = text
  | _ => false

/-- A token that is a name by which an expression can mention a thing. -/
def isMention : Token → Bool
  | .name text _ => !(reservedWords ++ declarableWords).any fun word => word.toList = text
  | _ => false

/-- The current token is a name that things can have. -/
def isIdentifier : Reading Bool := return isThingName (← token)

/-- Reads a name of any kind. -/
def anyName : Reading Text := do
  match ← token with
  | .name text _ =>
    advance
    return text
  | _ => fail

/-- Reads a name that things can have. -/
def identifier : Reading Text := do
  if isThingName (← token) then anyName else fail

/-- Reads a name by which an expression mentions a thing. -/
def mention : Reading Text := do
  if isMention (← token) then anyName else fail

/-- The cursor as it would be at the next token. -/
def following : Reading Cursor := do
  let c ← get
  return Cursor.after c.fuel c.next

/-- The next token is on the same line and satisfies `p`. -/
def followedOnLine (p : Token → Bool) : Reading Bool := do
  let c ← following
  return !c.newline && p c.token

/-- Reads items up to a closing sign, with commas between them; a comma at the end is fine. -/
def commaList (closing : String) (item : Reading α) : Reading (List α) := do
  let items ← many do
    if ← isSign closing then return none
    let a ← item
    unless ← isSign closing do expect ","
    return some a
  expect closing
  return items

end Reading

/-- What is to be read; forms that contain each other ask for each other by these. -/
inductive Goal where
  | type
  | binding
  | statement
  /-- What stands after a label or is the body of a branch or a loop. -/
  | body
  /-- A statement, an import or an export. -/
  | item
  | unary
  /-- An expression without commas outside of brackets. In the head of a loop it has no `in` of its
  own, and before a colon an arrow function has a return type only if the colon really follows. -/
  | assignment (noIn beforeColon : Bool)
  | expression (noIn : Bool)
deriving Repr, DecidableEq, Inhabited

/-- How the forms that contain each other are read. -/
abbrev Rules := Goal → Reading Node

namespace Rules

/-- Reads a type. -/
def type (self : Rules) : Reading Node := self .type

/-- Reads an expression without commas outside of brackets. -/
def assignment (self : Rules) : Reading Node := self (.assignment false false)

/-- Reads an expression. -/
def expression (self : Rules) : Reading Node := self (.expression false)

end Rules

end KeyLint.Script
