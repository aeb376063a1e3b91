import KeyLint.Text.Basic

/-!
# Lines of a text

Where a byte offset stands in a text, as a line and a column, and what a line says. Lines end with
a line feed, columns count characters, and both are counted from one.
-/

namespace KeyLint

/-- A place in a text by line and column, both counted from one. -/
structure Position where
  line : Nat
  column : Nat
deriving Repr, DecidableEq, Inhabited

namespace Text

/-- The position `n` bytes further on, starting at `here`. An offset beyond the text is its end, and
an offset inside a character has the first column. -/
def advance (here : Position) : Text → Nat → Position
  | _, 0 => here
  | [], _ + 1 => here
  | c :: cs, n + 1 =>
    if c.utf8Size ≤ n + 1 then
      let next : Position :=
        if c = '\n' then ⟨here.line + 1, 1⟩ else ⟨here.line, here.column + 1⟩
      advance next cs (n + 1 - c.utf8Size)
    else ⟨here.line, 1⟩

/-- The position of a byte offset in a text. -/
def position (t : Text) (offset : Nat) : Position :=
  advance ⟨1, 1⟩ t offset

/-- A text without the carriage returns at its end. -/
def dropReturns (t : Text) : Text :=
  (t.reverse.dropWhile (· = '\r')).reverse

/-- What the `n`-th line of a text says, without its line feed and the carriage returns before it;
nothing if there is no such line. -/
def line (t : Text) : Nat → Text
  | 0 => []
  | n + 1 => dropReturns ((splitOn '\n' t)[n]?.getD [])

end Text

end KeyLint
