import KeyLint.Script.Place
import KeyLint.Text.Digits
import KeyLint.Text.Units

/-!
# Tokens of a script

Names, numbers, strings and signs, with blanks and comments between them. Two kinds of token hang on
where they stand and are read on demand: a regular expression begins like a division, and the pieces
of a template literal end at embedded expressions.
-/

namespace KeyLint.Script

/-- A token of a script. A string's value is missing if it is not a text. -/
inductive Token where
  | name (text : Text) (plain : Bool)
  | privateName
  | number
  | string (value : Option Text)
  | sign (text : String)
  | endOfText
  | bad
deriving Repr, DecidableEq, Inhabited

/-! ## Characters -/

/-- A character that ends a line. -/
def isLineEnd (c : Char) : Bool :=
  c = '\n' || c = '\r' || c = '\u2028' || c = '\u2029'

/-- A blank between tokens; a byte order mark counts. -/
def isScriptBlank (c : Char) : Bool :=
  c ≠ '\u0085' && (Text.isBlank c || c = '\ufeff')

/-- A character that a name can begin with. -/
def isNameStart (c : Char) : Bool :=
  c = '$' || c = '_' || Text.isLetter c

/-- A character that a name can go on with. -/
def isNamePart (c : Char) : Bool :=
  c = '$' || Text.isWordChar c

/-! ## Blanks and comments -/

/-- The next place that is neither in blanks nor in a comment, and whether a line ends before it.
A comment that is not closed goes up to the end. The marks of a comment in a page start a comment up
to the end of the line, the closing one only at the beginning of a line. -/
def skipBlanks : (fuel : Nat) → (newline : Bool) → Place → Bool × Place
  | 0, newline, here => (newline, here)
  | fuel + 1, newline, here =>
    match here.rest with
    | '/' :: '/' :: _ => skipBlanks fuel newline (here.dropWhile fun c => !isLineEnd c)
    | '<' :: '!' :: '-' :: '-' :: _ =>
      skipBlanks fuel newline (here.dropWhile fun c => !isLineEnd c)
    | '-' :: '-' :: '>' :: _ =>
      if newline then skipBlanks fuel newline (here.dropWhile fun c => !isLineEnd c)
      else (newline, here)
    | '/' :: '*' :: cs =>
      match Text.cut? "*/".toList cs with
      | some (comment, rest) =>
        skipBlanks fuel (newline || comment.any isLineEnd)
          ⟨here.offset + Text.bytes comment + 4, rest⟩
      | none => (newline || cs.any isLineEnd, here.atEnd)
    | c :: _ =>
      if isScriptBlank c then skipBlanks fuel (newline || isLineEnd c) (here.drop 1)
      else (newline, here)
    | [] => (newline, here)

/-! ## Escapes -/

/-- The code point that a text goes on with after `\u`: four digits, or digits in braces. -/
def unicodeEscape? (here : Place) : Option (Nat × Place) :=
  match here.rest with
  | '\x7b' :: cs =>
    let digits := cs.takeWhile (· ≠ '\x7d')
    match Text.hexValue? digits, cs.drop digits.length with
    | some n, _ :: _ => if n ≤ 0x10ffff then some (n, here.drop (digits.length + 2)) else none
    | _, _ => none
  | a :: b :: c :: d :: _ => (Text.hexValue? [a, b, c, d]).map fun n => (n, here.drop 4)
  | _ => none

/-- The unit that a text goes on with after `\x`: two digits. -/
def hexEscape? (here : Place) : Option (Nat × Place) :=
  match here.rest with
  | a :: b :: _ => (Text.hexValue? [a, b]).map fun n => (n, here.drop 2)
  | _ => none

/-- An octal digit. -/
def isOctalDigit (c : Char) : Bool :=
  '0' ≤ c && c ≤ '7'

/-- The digits of the octal escape at the beginning of a text: at most three, and two if the first
is above three. -/
def octalDigits (t : Text) : Text :=
  let digits := t.takeWhile isOctalDigit
  match digits with
  | d :: _ => digits.take (if d ≤ '3' then 3 else 2)
  | [] => []

/-- The units that an escape stands for, given the place after its backslash, and the place after
it. A template literal has no octal escapes. -/
def escape? (inTemplate : Bool) (here : Place) : Option (List Nat × Place) :=
  match here.rest with
  | [] => none
  | c :: cs =>
    if c = 'n' then some ([10], here.drop 1)
    else if c = 't' then some ([9], here.drop 1)
    else if c = 'r' then some ([13], here.drop 1)
    else if c = 'b' then some ([8], here.drop 1)
    else if c = 'v' then some ([11], here.drop 1)
    else if c = 'f' then some ([12], here.drop 1)
    else if c = '\r' && cs.head? = some '\n' then some ([], here.drop 2)
    else if isLineEnd c then some ([], here.drop 1)
    else if c = 'x' then (hexEscape? (here.drop 1)).map fun (n, next) => ([n], next)
    else if c = 'u' then (unicodeEscape? (here.drop 1)).map fun (n, next) => ([n], next)
    else if inTemplate && Text.isAsciiDigit c then
      if c = '0' && !(cs.head?.any Text.isAsciiDigit) then some ([0], here.drop 1) else none
    else if isOctalDigit c then
      let digits := octalDigits (c :: cs)
      (Text.digitsValue? 8 0 digits).map fun n => ([n], here.drop digits.length)
    else some ([c.toNat], here.drop 1)

/-! ## Strings -/

/-- The units of a string up to its closing quote, and the place after it. A string that is not
closed ends with its line. A malformed escape makes it no string. -/
def stringUnits? (quote : Char) : (fuel : Nat) → Place → Option (List Nat × Place)
  | 0, _ => none
  | fuel + 1, here =>
    match here.rest with
    | [] => some ([], here)
    | c :: _ =>
      if c = quote then some ([], here.drop 1)
      else if c = '\n' || c = '\r' then some ([], here)
      else if c = '\\' then
        match escape? false (here.drop 1) with
        | none => none
        | some (units, next) =>
          (stringUnits? quote fuel next).map fun (more, next) => (units ++ more, next)
      else
        (stringUnits? quote fuel (here.drop 1)).map fun (more, next) => (c.toNat :: more, next)

/-- The string after an opening quote, and the place after it. -/
def readString (fuel : Nat) (quote : Char) (here : Place) : Token × Place :=
  match stringUnits? quote fuel here with
  | some (units, next) => (.string (Text.ofUnits? units), next)
  | none => (.bad, here)

/-! ## Template literals -/

/-- What a piece of a template literal holds: its cooked units, if all its escapes are well formed,
whether an embedded expression follows it, and the places of its end and of what comes next. -/
structure Piece where
  units : Option (List Nat)
  isLast : Bool
  stop : Place
  next : Place
deriving Repr, DecidableEq, Inhabited

/-- A piece with units put before its own. -/
def Piece.prepend (units : Option (List Nat)) (piece : Piece) : Piece :=
  { piece with units := units.bind fun us => piece.units.map (us ++ ·) }

/-- The piece of a template literal at a place; none if the literal is not closed. The ends of lines
are cooked to line feeds. -/
def readPiece? : (fuel : Nat) → Place → Option Piece
  | 0, _ => none
  | fuel + 1, here =>
    match here.rest with
    | [] => none
    | '\x60' :: _ => some ⟨some [], true, here, here.drop 1⟩
    | '$' :: '\x7b' :: _ => some ⟨some [], false, here, here.drop 2⟩
    | '\r' :: '\n' :: _ => (readPiece? fuel (here.drop 2)).map (Piece.prepend (some [10]))
    | '\r' :: _ => (readPiece? fuel (here.drop 1)).map (Piece.prepend (some [10]))
    | '\\' :: _ :: _ =>
      match escape? true (here.drop 1) with
      | some (units, next) => (readPiece? fuel next).map (Piece.prepend (some units))
      | none => (readPiece? fuel (here.drop 2)).map (Piece.prepend none)
    | c :: _ => (readPiece? fuel (here.drop 1)).map (Piece.prepend (some [c.toNat]))

/-! ## Regular expressions -/

/-- The place after the body of a regular expression, given the place after its opening slash; none
if its line ends first. A slash in a class does not close it. -/
def afterRegexBody? : (fuel : Nat) → (inClass : Bool) → Place → Option Place
  | 0, _, _ => none
  | fuel + 1, inClass, here =>
    match here.rest with
    | [] => none
    | '\\' :: c :: _ => if isLineEnd c then none else afterRegexBody? fuel inClass (here.drop 2)
    | c :: _ =>
      if isLineEnd c then none
      else if c = '/' && !inClass then some (here.drop 1)
      else
        let inClass := if c = '[' then true else if c = ']' then false else inClass
        afterRegexBody? fuel inClass (here.drop 1)

/-- The place after a regular expression, given the place of its opening slash. -/
def afterRegex? (fuel : Nat) (here : Place) : Option Place :=
  (afterRegexBody? fuel false (here.drop 1)).map (Place.dropWhile isNamePart)

/-! ## Names, numbers and signs -/

/-- The name at a place, without its escapes, whether it has none, and the place after it. -/
def readName : (fuel : Nat) → (first : Bool) → Place → Option (Text × Bool × Place)
  | 0, _, _ => none
  | fuel + 1, first, here =>
    match here.rest with
    | '\\' :: 'u' :: _ =>
      match unicodeEscape? (here.drop 2) with
      | some (n, next) =>
        let c := Char.ofNat n
        if if first then isNameStart c else isNamePart c then
          (readName fuel false next).map fun (text, _, next) => (c :: text, false, next)
        else none
      | none => none
    | '\\' :: _ => none
    | c :: _ =>
      if if first then isNameStart c else isNamePart c then
        (readName fuel false (here.drop 1)).map fun (text, plain, next) => (c :: text, plain, next)
      else if first then none
      else some ([], true, here)
    | [] => if first then none else some ([], true, here)

/-- A digit or a separator of digits. -/
def isDigitPart (c : Char) : Bool :=
  Text.isAsciiDigit c || c = '_'

/-- The place after an exponent, if there is one here. -/
def afterExponent (here : Place) : Place :=
  match here.rest with
  | e :: c :: cs =>
    if e ≠ 'e' && e ≠ 'E' then here
    else if isDigitPart c then (here.drop 1).dropWhile isDigitPart
    else if (c = '+' || c = '-') && cs.head?.any isDigitPart then
      (here.drop 2).dropWhile isDigitPart
    else here
  | _ => here

/-- The place after the mark of a big integer, if there is one here. -/
def afterBigMark (here : Place) : Place :=
  match here.rest with
  | 'n' :: _ => here.drop 1
  | _ => here

/-- The place after a fraction, if there is one here. -/
def afterFraction (here : Place) : Place :=
  match here.rest with
  | '.' :: _ => (here.drop 1).dropWhile isDigitPart
  | _ => here

/-- The place after the number in base ten at a place. Digits after a zero make an octal number if
they can, which has neither fraction nor exponent; and no big integer begins like that. -/
def afterDecimal (here : Place) : Place :=
  let digits := here.rest.takeWhile isDigitPart
  let whole := here.dropWhile isDigitPart
  let isLegacy := digits.head? = some '0' && digits.length > 1
  if isLegacy && digits.all fun c => isOctalDigit c || c = '_' then whole
  else
    let next := afterExponent (afterFraction whole)
    if next = whole && !isLegacy then afterBigMark whole else next

/-- The digits of a base other than ten, by the letter after a zero that stands for it. -/
def radixDigits? (letter : Char) : Option (Char → Bool) :=
  if letter = 'x' || letter = 'X' then some fun c => (Text.digitValue? c).isSome
  else if letter = 'o' || letter = 'O' then some isOctalDigit
  else if letter = 'b' || letter = 'B' then some fun c => c = '0' || c = '1'
  else none

/-- The place after the number at a place, if it has digits. -/
def afterNumber? (here : Place) : Option Place :=
  match here.rest with
  | '0' :: letter :: cs =>
    match radixDigits? letter with
    | none => some (afterDecimal here)
    | some isDigit =>
      let isPart := fun c => isDigit c || c = '_'
      if cs.head?.any isPart then some (afterBigMark ((here.drop 2).dropWhile isPart)) else none
  | _ => some (afterDecimal here)

/-- A number, unless a name begins right after it. -/
def readNumber (here : Place) : Token × Place :=
  match afterNumber? here with
  | none => (.bad, here)
  | some next => if next.rest.head?.any isNameStart then (.bad, here) else (.number, next)

/-- The signs, longer ones before their own beginnings. -/
def signs : List String :=
  [">>>=", "...", "===", "!==", "**=", "<<=", ">>=", ">>>", "&&=", "||=", "??=",
   "=>", "==", "!=", "<=", ">=", "&&", "||", "??", "?.", "++", "--", "+=", "-=", "*=", "/=", "%=",
   "&=", "|=", "^=", "<<", ">>", "**",
   "\x7b", "\x7d", "(", ")", "[", "]", ";", ",", "<", ">", "+", "-", "*", "/", "%", "&", "|", "^",
   "!", "~", "?", ":", "=", ".", "@", "\x60"]

/-- The sign at a place. A question mark and a point before a digit are two signs. -/
def readSign (here : Place) : Token × Place :=
  match here.rest with
  | '?' :: '.' :: d :: _ =>
    if Text.isAsciiDigit d then (.sign "?", here.drop 1) else (.sign "?.", here.drop 2)
  | _ =>
    match signs.findSome? fun sign => (here.after? sign.toList).map fun next => (sign, next) with
    | some (sign, next) => (.sign sign, next)
    | none => (.bad, here)

/-- The token at a place that is not blank, and the place after it. The fuel is at least the number
of characters that are left. -/
def readToken (fuel : Nat) (here : Place) : Token × Place :=
  match here.rest with
  | [] => (.endOfText, here)
  | c :: cs =>
    if c = '"' || c = '\'' then readString fuel c (here.drop 1)
    else if Text.isAsciiDigit c || (c = '.' && cs.head?.any Text.isAsciiDigit) then readNumber here
    else if c = '#' then
      match readName fuel true (here.drop 1) with
      | some (_, _, next) => (.privateName, next)
      | none => (.bad, here)
    else if isNameStart c || c = '\\' then
      match readName fuel true here with
      | some (text, plain, next) => (.name text plain, next)
      | none => (.bad, here)
    else readSign here

end KeyLint.Script
