import KeyLint.Json.Quoted
import KeyLint.Text.Classes

/-!
# JSON tokens

The brackets, marks, words, numbers and strings of a JSON text. Blanks, tabs, line feeds and
carriage returns separate tokens and are no tokens themselves; there are no comments.
-/

namespace KeyLint.Json

/-- A token of a JSON text. -/
inductive Token where
  | openArray
  | closeArray
  | openObject
  | closeObject
  | comma
  | colon
  | null
  | bool (b : Bool)
  | number (digits : Text)
  | str (t : Text)
deriving Repr, DecidableEq, Inhabited

namespace Token

/-- A character that separates tokens. -/
def isSpace (c : Char) : Bool :=
  c = ' ' || c = '\t' || c = '\n' || c = '\r'

/-- The token that a character is by itself. -/
def ofMark? : Char → Option Token
  | '[' => some .openArray
  | ']' => some .closeArray
  | '\x7b' => some .openObject
  | '\x7d' => some .closeObject
  | ',' => some .comma
  | ':' => some .colon
  | _ => none

/-- A character of a word or a number. -/
def isPlain (c : Char) : Bool :=
  Text.isAsciiAlnum c || c = '+' || c = '-' || c = '.'

/-! ## Numbers -/

/-- One or more digits and nothing else. -/
def isDigits (t : Text) : Bool :=
  !t.isEmpty && t.all Text.isAsciiDigit

/-- Nothing, or an exponent. -/
def isExponent : Text → Bool
  | [] => true
  | c :: cs =>
    (c = 'e' || c = 'E')
      && match cs with
        | '+' :: ds | '-' :: ds => isDigits ds
        | ds => isDigits ds

/-- Nothing, or a fraction with an exponent or without. -/
def isFraction : Text → Bool
  | '.' :: cs =>
    !(cs.takeWhile Text.isAsciiDigit).isEmpty && isExponent (cs.dropWhile Text.isAsciiDigit)
  | cs => isExponent cs

/-- A number without a sign: its whole part starts with a zero only if it is one. -/
def isMagnitude (t : Text) : Bool :=
  let whole := t.takeWhile Text.isAsciiDigit
  !whole.isEmpty && (whole.head? ≠ some '0' || whole.length = 1)
    && isFraction (t.dropWhile Text.isAsciiDigit)

/-- A number. -/
def isNumber : Text → Bool
  | '-' :: cs => isMagnitude cs
  | cs => isMagnitude cs

/-! ## Scanning -/

/-- The token that a word or a number is. -/
def ofWord? (word : Text) : Option Token :=
  if word = "null".toList then some .null
  else if word = "true".toList then some (.bool true)
  else if word = "false".toList then some (.bool false)
  else if isNumber word then some (.number word)
  else none

/-- The tokens of a text, if it consists of tokens. -/
def scan (t : Text) : Option (List Token) :=
  match t with
  | [] => some []
  | c :: cs =>
    if isSpace c then scan cs
    else if c = '"' then
      match h : Quoted.read? cs with
      | none => none
      | some (s, rest) =>
        have := Quoted.length_lt_of_read?_eq_some h
        (scan rest).map (.str s :: ·)
    else if isPlain c then
      have := Text.length_dropWhile_le isPlain cs
      match ofWord? (c :: cs.takeWhile isPlain) with
      | none => none
      | some token => (scan (cs.dropWhile isPlain)).map (token :: ·)
    else
      match ofMark? c with
      | none => none
      | some token => (scan cs).map (token :: ·)
termination_by t.length
decreasing_by all_goals simp only [List.length_cons]; omega

end Token

end KeyLint.Json
