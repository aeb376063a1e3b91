import KeyLint.Text.Classes

/-!
# Places in a script

A place is a byte offset together with the text from there on. Moving along the text keeps the
offset in step.
-/

namespace KeyLint.Script

/-- A byte offset and the text that follows it. -/
structure Place where
  offset : Nat
  rest : Text
deriving Repr, DecidableEq, Inhabited

namespace Place

/-- The place after `n` more characters. -/
def drop (n : Nat) (here : Place) : Place :=
  ⟨here.offset + Text.bytes (here.rest.take n), here.rest.drop n⟩

/-- The first place from here on whose character does not satisfy `p`. -/
def dropWhile (p : Char → Bool) (here : Place) : Place :=
  ⟨here.offset + Text.bytes (here.rest.takeWhile p), here.rest.dropWhile p⟩

/-- The place after a word, if the text goes on with it here. -/
def after? (word : Text) (here : Place) : Option Place :=
  (Text.after? word here.rest).map fun rest => ⟨here.offset + Text.bytes word, rest⟩

/-- The end of the text. -/
def atEnd (here : Place) : Place :=
  ⟨here.offset + Text.bytes here.rest, []⟩

end Place

end KeyLint.Script
