import KeyLint.Text.Basic

/-!
# UTF-16 code units

Strings of a script are sequences of 16-bit units. Two surrogates in the right order stand for one
character; a surrogate without its partner stands for none, and then the string is not a text.
-/

namespace KeyLint.Text

/-- The first half of a surrogate pair. -/
def isHighSurrogate (u : Nat) : Bool :=
  0xd800 ≤ u && u ≤ 0xdbff

/-- The second half of a surrogate pair. -/
def isLowSurrogate (u : Nat) : Bool :=
  0xdc00 ≤ u && u ≤ 0xdfff

/-- The code point of a surrogate pair. -/
def pairCodePoint (high low : Nat) : Nat :=
  0x10000 + (high - 0xd800) * 0x400 + (low - 0xdc00)

/-- The text that a sequence of units and code points stands for, with neighbouring surrogates put
together; none if a surrogate has no partner or a number is no code point. -/
def ofUnits? : List Nat → Option Text
  | [] => some []
  | high :: low :: us =>
    if isHighSurrogate high && isLowSurrogate low then
      (ofUnits? us).map (Char.ofNat (pairCodePoint high low) :: ·)
    else if high.isValidChar then (ofUnits? (low :: us)).map (Char.ofNat high :: ·)
    else none
  | [u] => if u.isValidChar then some [Char.ofNat u] else none

end KeyLint.Text
