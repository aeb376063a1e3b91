import KeyLint.Json.Basic
import KeyLint.Json.Token

/-!
# Reading JSON

A text is one value. Its tokens are read from left to right over a stack of the arrays and objects
that are still open.
-/

namespace KeyLint.Json

/-- An array or object that is still open: the items or members before the one being read, the last
of them first, and the name of the member being read. -/
inductive Frame where
  | array (done : List Json)
  | object (done : List (Text × Json)) (name : Text)

mutual

/-- The whole value, where the next token starts a value inside the frames of `stack`. -/
def readValue : (stack : List Frame) → List Token → Option Json
  | stack, .null :: ts => resume stack .null ts
  | stack, .bool b :: ts => resume stack (.bool b) ts
  | stack, .number digits :: ts => resume stack (.number digits) ts
  | stack, .str t :: ts => resume stack (.str t) ts
  | stack, .openArray :: .closeArray :: ts => resume stack (.array []) ts
  | stack, .openArray :: ts => readValue (.array [] :: stack) ts
  | stack, .openObject :: .closeObject :: ts => resume stack (.object []) ts
  | stack, .openObject :: .str name :: .colon :: ts => readValue (.object [] name :: stack) ts
  | _, _ => none

/-- The whole value, where `v` has just been read inside the frames of `stack`. -/
def resume : (stack : List Frame) → (v : Json) → List Token → Option Json
  | [], v, [] => some v
  | .array done :: stack, v, .comma :: ts => readValue (.array (v :: done) :: stack) ts
  | .array done :: stack, v, .closeArray :: ts => resume stack (.array (v :: done).reverse) ts
  | .object done name :: stack, v, .comma :: .str next :: .colon :: ts =>
    readValue (.object ((name, v) :: done) next :: stack) ts
  | .object done name :: stack, v, .closeObject :: ts =>
    resume stack (.object ((name, v) :: done).reverse) ts
  | _, _, _ => none

end

/-- The value that a text writes, if it writes one. -/
def parse? (t : Text) : Option Json :=
  (Token.scan t).bind (readValue [])

end KeyLint.Json
