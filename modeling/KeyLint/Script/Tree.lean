import KeyLint.Span

/-!
# Script trees

The tree of a script keeps what the rules look at (strings, names, conditionals, member accesses,
calls, declarations, assignments, object properties, class fields) and the nesting of everything.
Most other constructs are a `group` of their parts, which are visited in the order in which they
stand. Some are not visited in that order: calls with type arguments, `<T>e`, `do` loops, functions,
classes and their members. Types are nodes like all others, since the computed names in them hold
expressions.
-/

namespace KeyLint.Script

/-- A piece of a template literal between two embedded expressions. `cooked` is the text that the
piece stands for, if it stands for one. -/
structure Chunk where
  raw : Text
  cooked : Option Text
  span : Span
deriving Repr, DecidableEq, Inhabited

/-- What may stand around an expression without a value of its own. -/
inductive Wrapper where
  /-- `(e)` -/
  | parens
  /-- `e as T` -/
  | asType
  /-- `e as const` -/
  | asConst
  /-- `e satisfies T` -/
  | satisfies
  /-- `<T>e` -/
  | assertion
  /-- `e!` -/
  | nonNull
deriving Repr, DecidableEq, Inhabited

/-- Who may use a member of a class. -/
inductive Access where
  | everyone
  | subclasses
  | ownClass
deriving Repr, DecidableEq, Inhabited

/-- What a class field is declared with. -/
structure Modifiers where
  readonly : Bool := false
  isStatic : Bool := false
  access : Option Access := none
deriving Repr, DecidableEq, Inhabited

/-- A node of a script's tree. The value of a string is missing if it is not a text. A key, binding
or target that is a plain name is an `ident` node. The `types` of a node are those written at it:
annotations, type parameters or type arguments. -/
inductive Node where
  /-- A number, a keyword such as `this`, or anything else without parts of interest. -/
  | atom
  | ident (name : Text)
  | str (value : Option Text) (span : Span)
  | template (chunks : List Chunk) (parts : List Node) (span : Span)
  | cond (test yes no : Node)
  /-- `owner.name` with a plain name. -/
  | member (owner : Node) (name : Text)
  | typedCall (callee : Node) (types arguments : List Node) (span : Span)
  | spread (inner : Node)
  | typedWrapped (form : Wrapper) (types : List Node) (inner : Node)
  /-- `e<T>` without a call. -/
  | instantiated (inner : Node) (types : List Node)
  | array (items : List Node)
  | object (members : List Node)
  /-- `binding: T = init` in a declaration. -/
  | typedDeclarator (binding : Node) (types : List Node) (init : Option Node) (span : Span)
  | assign (target value : Node) (span : Span)
  /-- `key: value` in an object. -/
  | property (key value : Node) (span : Span)
  | typedField (modifiers : Modifiers) (key : Node) (types : List Node) (value : Option Node)
    (decorators : List Node) (span : Span)
  /-- A class field with a private name, or an accessor. -/
  | otherField (decorators : List Node) (key : Node) (types : List Node) (value : Option Node)
  /-- A function or a method, with its parts in the order in which they stand. -/
  | function (decorators name types params returned body : List Node)
  /-- A class, with its parts in the order in which they stand. The `bases` are the type arguments of
  what it extends and the types that it implements. -/
  | classDef (decorators types parent bases members : List Node)
  /-- `do body while (test)` -/
  | doLoop (body test : Node)
  /-- Parts of which those that stand first are visited last. -/
  | swapped (first second : List Node)
  | group (parts : List Node)
deriving Repr, Inhabited

namespace Node

/-! ## Nodes without types -/

/-- A call without type arguments. -/
@[match_pattern] abbrev call (callee : Node) (arguments : List Node) (span : Span) : Node :=
  .typedCall callee [] arguments span

/-- A wrapper without types. -/
@[match_pattern] abbrev wrapped (form : Wrapper) (inner : Node) : Node :=
  .typedWrapped form [] inner

/-- `binding = init` in a declaration. -/
@[match_pattern] abbrev declarator (binding : Node) (init : Option Node) (span : Span) : Node :=
  .typedDeclarator binding [] init span

/-- A class field without an annotation. -/
@[match_pattern] abbrev field (modifiers : Modifiers) (key : Node) (value : Option Node)
    (decorators : List Node) (span : Span) : Node :=
  .typedField modifiers key [] value decorators span

/-! ## Visiting -/

/-- The nodes directly inside a node, in the order in which they are visited. -/
def children : Node → List Node
  | .atom | .ident _ | .str _ _ => []
  | .template _ parts _ => parts
  | .cond test yes no => [test, yes, no]
  | .member owner _ => [owner]
  | .typedCall callee types arguments _ => callee :: (arguments ++ types)
  | .spread inner => [inner]
  | .typedWrapped _ types inner | .instantiated inner types => inner :: types
  | .array items => items
  | .object members => members
  | .typedDeclarator binding types init _ => binding :: (types ++ init.toList)
  | .assign target value _ => [target, value]
  | .property key value _ => [key, value]
  | .typedField _ key types value decorators _ | .otherField decorators key types value =>
    key :: (value.toList ++ (types ++ decorators))
  | .function decorators name types params returned body =>
    name ++ (params ++ (decorators ++ (body ++ (types ++ returned))))
  | .classDef decorators types parent bases members =>
    decorators ++ (members ++ (parent ++ (types ++ bases)))
  | .doLoop body test => [test, body]
  | .swapped first second => second ++ first
  | .group parts => parts

/-- A node that the rules react to. -/
def isEvent : Node → Bool
  | .typedDeclarator .. | .assign .. | .typedCall .. | .property .. | .typedField .. => true
  | _ => false

mutual

/-- The nodes that the rules react to, in a node and all that is inside it. A node comes before what
is inside it. -/
def events : Node → List Node
  | .atom => []
  | .ident _ => []
  | .str _ _ => []
  | .template _ parts _ => eventsIn parts
  | .cond test yes no => events test ++ events yes ++ events no
  | .member owner _ => events owner
  | .typedCall callee types arguments span =>
    .typedCall callee types arguments span
      :: (events callee ++ eventsIn arguments ++ eventsIn types)
  | .spread inner => events inner
  | .typedWrapped _ types inner => events inner ++ eventsIn types
  | .instantiated inner types => events inner ++ eventsIn types
  | .array items => eventsIn items
  | .object members => eventsIn members
  | .typedDeclarator binding types init span =>
    .typedDeclarator binding types init span
      :: (events binding ++ eventsIn types ++ eventsOf init)
  | .assign target value span => .assign target value span :: (events target ++ events value)
  | .property key value span => .property key value span :: (events key ++ events value)
  | .typedField modifiers key types value decorators span =>
    .typedField modifiers key types value decorators span
      :: (events key ++ eventsOf value ++ eventsIn types ++ eventsIn decorators)
  | .otherField decorators key types value =>
    events key ++ eventsOf value ++ eventsIn types ++ eventsIn decorators
  | .function decorators name types params returned body =>
    eventsIn name ++ eventsIn params ++ eventsIn decorators ++ eventsIn body ++ eventsIn types
      ++ eventsIn returned
  | .classDef decorators types parent bases members =>
    eventsIn decorators ++ eventsIn members ++ eventsIn parent ++ eventsIn types ++ eventsIn bases
  | .doLoop body test => events test ++ events body
  | .swapped first second => eventsIn second ++ eventsIn first
  | .group parts => eventsIn parts

/-- The events of several nodes, one after the other. -/
def eventsIn : List Node → List Node
  | [] => []
  | node :: nodes => events node ++ eventsIn nodes

/-- The events of a node that may be missing. -/
def eventsOf : Option Node → List Node
  | none => []
  | some node => events node

end

end Node

end KeyLint.Script
