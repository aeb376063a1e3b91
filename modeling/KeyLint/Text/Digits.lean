import KeyLint.Text.Basic

/-!
# Numbers in digits

Reading numbers that are written in a base up to sixteen.
-/

namespace KeyLint.Text

/-- The value of a digit in bases up to sixteen. -/
def digitValue? (c : Char) : Option Nat :=
  if '0' ≤ c && c ≤ '9' then some (c.toNat - '0'.toNat)
  else if 'a' ≤ c && c ≤ 'f' then some (c.toNat - 'a'.toNat + 10)
  else if 'A' ≤ c && c ≤ 'F' then some (c.toNat - 'A'.toNat + 10)
  else none

/-- The number that digits write in a base, read after `acc`. -/
def digitsValue? (base : Nat) : (acc : Nat) → Text → Option Nat
  | acc, [] => some acc
  | acc, c :: cs =>
    match digitValue? c with
    | some d => if d < base then digitsValue? base (acc * base + d) cs else none
    | none => none

/-- The number that a text writes: one or more digits, with a plus sign before them or not. -/
def number? (base : Nat) : Text → Option Nat
  | [] => none
  | '+' :: [] => none
  | '+' :: cs => digitsValue? base 0 cs
  | cs => digitsValue? base 0 cs

/-- The character with a code point, if there is one. -/
def charOfNat? (n : Nat) : Option Char :=
  if n.isValidChar then some (Char.ofNat n) else none

/-- The number that hexadecimal digits write, if there are digits and nothing else. -/
def hexValue? (digits : Text) : Option Nat :=
  if digits.isEmpty then none else digitsValue? 16 0 digits

end KeyLint.Text
