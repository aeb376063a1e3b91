import KeyLint.Text.Basic

/-!
# Spans

The part of a file's text that something occupies, from one byte offset to another.
-/

namespace KeyLint

/-- The bytes from `start` up to, and without, `stop`. -/
structure Span where
  start : Nat := 0
  stop : Nat := 0
deriving Repr, DecidableEq, Inhabited

namespace Span

/-- The very beginning of a file, where whatever concerns the file as a whole is reported. -/
def fileStart : Span := ⟨0, 0⟩

/-- The same span in a text that begins `base` bytes later. -/
def relativeTo (s : Span) (base : Nat) : Span :=
  ⟨s.start - base, s.stop - base⟩

/-- The same span with `n` bytes put before the text. -/
def shift (s : Span) (n : Nat) : Span :=
  ⟨s.start + n, s.stop + n⟩

end Span

/-- A string value that a file spells out, and where. -/
structure Literal where
  value : Text
  span : Span
deriving Repr, DecidableEq, Inhabited

end KeyLint
