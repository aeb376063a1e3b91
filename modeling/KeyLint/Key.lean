import KeyLint.Violation

/-!
# The key naming convention

A key is a list of segments with dots between them. The keys of a file start with the prefix of the
file's context and have as many segments as the file's kind asks for.
-/

namespace KeyLint.Key

/-- The segments of a key. -/
def segments (key : Text) : List Text :=
  Text.splitOn '.' key

/-- The key is the given prefix, or goes on after it with a dot. -/
def isUnder (keyPrefix key : Text) : Bool :=
  match Text.after? keyPrefix key with
  | some [] => true
  | some (c :: _) => c = '.'
  | none => false

/-- The first fault of a key in a context, if it has one. Keys with an ignored beginning have none;
an empty segment comes before a wrong prefix, and a wrong prefix before a wrong length. -/
def fault? (context : FileContext) (ignoredPrefixes : List Text) (key : Text) :
    Option Violation :=
  if ignoredPrefixes.any fun ignored => ignored.isPrefixOf key then none
  else if (segments key).any List.isEmpty then some (.notEnoughParts key context.kind)
  else if !isUnder context.keyPrefix key then some (.mismatchedKey key context.keyPrefix)
  else if (segments key).length < context.kind.keyParts then
    some (.notEnoughParts key context.kind)
  else if (segments key).length > context.kind.keyParts then
    some (.tooManyParts key context.kind)
  else none

end KeyLint.Key
