import KeyLint.Text.Basic

/-!
# JSON values

A value keeps what its text says: the members of an object in their order, with repetitions, and a
number as it is written.
-/

namespace KeyLint

/-- A JSON value. -/
inductive Json where
  | null
  | bool (b : Bool)
  | number (digits : Text)
  | str (t : Text)
  | array (items : List Json)
  | object (members : List (Text × Json))
deriving Repr, Inhabited

namespace Json

/-- A natural number as a value. -/
def ofNat (n : Nat) : Json := .number (Text.ofNat n)

/-- A list of texts as a value. -/
def ofTexts (ts : List Text) : Json := .array (ts.map .str)

/-- A text that may be missing as a value. -/
def ofText? : Option Text → Json
  | none => .null
  | some t => .str t

/-! ## What a value holds -/

/-- The text of a string. -/
def text? : Json → Option Text
  | .str t => some t
  | _ => none

/-- The truth value of a boolean. -/
def bool? : Json → Option Bool
  | .bool b => some b
  | _ => none

/-- The texts of an array of strings. -/
def texts? : Json → Option (List Text)
  | .array items => items.mapM text?
  | _ => none

/-- The text of a string, or none for null. -/
def nullableText? : Json → Option (Option Text)
  | .null => some none
  | .str t => some (some t)
  | _ => none

end Json

end KeyLint
