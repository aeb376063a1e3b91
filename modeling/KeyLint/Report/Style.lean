import KeyLint.Text.Basic

/-!
# Styled texts

A styled text is a sequence of runs, each with a style of its own. With colours, a run with a style
is written between terminal codes; without them, only the texts of the runs are written. Printing can
stop before the end of a text.
-/

namespace KeyLint

/-- A colour of a terminal. -/
inductive Color where
  | red
  | green
  | yellow
  | blue
  | cyan
deriving Repr, DecidableEq, Inhabited

/-- The terminal code of a colour. -/
def Color.code : Color → Text
  | .red => "31".toList
  | .green => "32".toList
  | .yellow => "33".toList
  | .blue => "34".toList
  | .cyan => "36".toList

/-- How a run of text looks. -/
structure Style where
  isBold : Bool := false
  isDimmed : Bool := false
  color : Option Color := none
deriving Repr, DecidableEq, Inhabited

/-- The terminal codes of a style. -/
def Style.codes (s : Style) : List Text :=
  (if s.isBold then ["1".toList] else []) ++ (if s.isDimmed then ["2".toList] else [])
    ++ (s.color.map Color.code).toList

/-- A text in one style. -/
structure Run where
  style : Style := {}
  text : Text
deriving Repr, DecidableEq, Inhabited

/-- A text in several styles. -/
abbrev Styled := List Run

namespace Styled

/-- The character that starts a terminal code. -/
def escapeChar : Char := '\x1b'

/-- A terminal code. -/
def control (codes : List Text) : Text :=
  escapeChar :: '[' :: Text.join ";".toList codes ++ "m".toList

/-- A run as it is written, with colours or without. -/
def renderRun (colored : Bool) (run : Run) : Text :=
  if colored && !run.style.codes.isEmpty then
    control run.style.codes ++ run.text ++ control ["0".toList]
  else run.text

/-- A styled text as it is written, with colours or without. -/
def render (colored : Bool) (runs : Styled) : Text :=
  runs.flatMap (renderRun colored)

/-- Styled lines as they are written, each with a line feed after it. -/
def renderLines (colored : Bool) (lines : List Styled) : Text :=
  lines.flatMap fun line => render colored line ++ ['\n']

/-- A text in no style. -/
def plain (t : Text) : Run := { text := t }

/-- A text in a colour. -/
def inColor (color : Color) (t : Text) : Run := { style := { color := some color }, text := t }

/-- A text in bold letters of a colour. -/
def inBold (color : Color) (t : Text) : Run :=
  { style := { isBold := true, color := some color }, text := t }

/-- A text in dimmed letters of a colour. -/
def inDimmed (color : Color) (t : Text) : Run :=
  { style := { isDimmed := true, color := some color }, text := t }

end Styled

/-- A styled text as far as it could be printed. -/
structure Printed where
  runs : Styled := []
  /-- Whether all of the text could be printed. -/
  isComplete : Bool := true
deriving Repr, DecidableEq, Inhabited

namespace Printed

/-- All of a text. -/
def all (runs : Styled) : Printed := { runs }

/-- A text that cannot be printed, so that nothing after it is printed either. -/
def stopped : Printed := { isComplete := false }

/-- One text and another after it, unless the first one could not be printed to its end. -/
def append (first second : Printed) : Printed :=
  if first.isComplete then { second with runs := first.runs ++ second.runs } else first

instance : Append Printed := ⟨append⟩

/-- Several texts, one after another. -/
def concat (texts : List Printed) : Printed :=
  texts.foldr append {}

end Printed

end KeyLint
