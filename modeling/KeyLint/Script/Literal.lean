import KeyLint.Script.Tree

/-!
# Literals of a script

Which string literals an expression may evaluate to, which calls translate a key, and which class
fields and object properties hold texts.
-/

namespace KeyLint.Script

/-- A wrapper that is looked through when literals are collected. -/
def Wrapper.isTransparent : Wrapper → Bool
  | .parens | .asType | .asConst | .satisfies => true
  | .assertion | .nonNull => false

/-- The literal of a piece of a template literal: its cooked text, or its raw text if it has none;
nothing if that is empty. -/
def Chunk.literal? (chunk : Chunk) : Option Literal :=
  let value := chunk.cooked.getD chunk.raw
  if value.isEmpty then none else some ⟨value, chunk.span⟩

namespace Node

/-- An expression without the transparent wrappers around it. -/
def unwrap : Node → Node
  | .typedWrapped form types inner =>
    if form.isTransparent then unwrap inner else .typedWrapped form types inner
  | node => node

/-- The string literals that an expression may evaluate to: itself, both branches of a conditional,
and the pieces of a template literal. -/
def literals : Node → List Literal
  | .str (some value) span => [⟨value, span⟩]
  | .cond _ yes no => literals yes ++ literals no
  | .template chunks _ _ => chunks.filterMap Chunk.literal?
  | .typedWrapped form _ inner => if form.isTransparent then literals inner else []
  | _ => []

/-- The methods that look up a translation. -/
def translationMethods : List Text :=
  ["translate".toList, "instant".toList]

/-- A call of it looks up a translation. -/
def isTranslationMethod (callee : Node) : Bool :=
  match callee.unwrap with
  | .member _ name => translationMethods.contains name
  | _ => false

/-- The first of some arguments, unless there is none or it is spread. -/
def firstArgument? : List Node → Option Node
  | [] => none
  | .spread _ :: _ => none
  | argument :: _ => some argument.unwrap

/-- A key that reads `template`, with or without quotes. -/
def isTemplateKey : Node → Bool
  | .ident name => name = "template".toList
  | .str value _ => value = some "template".toList
  | _ => false

/-- The markup of the value of a `template` property, and where the value stands. The embedded
expressions of a template literal are left out. -/
def markup? : Node → Option (Text × Span)
  | .str (some value) span => some (value, span)
  | .template chunks _ span => some (chunks.flatMap Chunk.raw, span)
  | _ => none

/-- The name of a class field, if it is a plain one. -/
def fieldName? : Node → Option Text
  | .ident name => some name
  | _ => none

/-- The string literal that a class field is set to, if it is neither private nor readonly. -/
def fieldLiteral? (modifiers : Modifiers) (value : Option Node) : Option Literal :=
  if modifiers.readonly || modifiers.access = some .ownClass then none
  else
    match value with
    | some (.str (some text) span) => some ⟨text, span⟩
    | _ => none

end Node

end KeyLint.Script
