import KeyLint.Expression.Operand
import KeyLint.Proofs.Expression.Quoted

/-!
# Expressions as trees

An expression is a list of items, and some of its items are groups with items of their own. A tree
says at once in which groups a literal stands, and which bars are in each of them; the scanner of an
expression has to find this out from the brackets.
-/

namespace KeyLint.Expression

/-! ## Items -/

inductive Bracket where
  | round
  | square
  | curly

namespace Bracket

def opening : Bracket → Char
  | round => '('
  | square => '['
  | curly => '\x7b'

def closing : Bracket → Char
  | round => ')'
  | square => ']'
  | curly => '\x7d'

end Bracket

/-- A string literal without quotes and backslashes in it. Brackets and bars may be in it. -/
structure Literal where
  quote : Char
  content : Text
  quoted : isQuote quote = true
  free : ∀ c ∈ content, isQuote c = false ∧ c ≠ '\\'

def Literal.render (l : Literal) : Text :=
  l.quote :: (l.content ++ [l.quote])

/-- A character that has no meaning of its own outside of strings. -/
def isPlain (c : Char) : Bool :=
  !opensString c && !opensGroup c && !closesGroup c && c ≠ '|'

inductive Item where
  | word (w : Text) (hw : ∀ c ∈ w, isPlain c = true)
  | literal (l : Literal)
  | or
  | bar
  | group (bracket : Bracket) (content : List Item)

/-! ## Texts -/

mutual

def Item.tokens : Item → List Text
  | .word w _ => [w]
  | .literal l => [l.render]
  | .or => [['|', '|']]
  | .bar => [['|']]
  | .group bracket content => [bracket.opening] :: (tokens content ++ [[bracket.closing]])

def tokens : List Item → List Text
  | [] => []
  | item :: items => item.tokens ++ tokens items

end

/-- A text that begins with a blank, if with anything. -/
def Boundary (t : Text) : Prop :=
  ∀ c ∈ t.head?, Text.isBlank c = true

/-- A text is made of tokens with blanks between them. -/
inductive Spaced : List Text → Text → Prop
  | nil : Spaced [] []
  | blank {c : Char} {ws : List Text} {t : Text} (hc : Text.isBlank c = true) (h : Spaced ws t) :
      Spaced ws (c :: t)
  | token (w : Text) {ws : List Text} {t : Text} (ht : Boundary t) (h : Spaced ws t) :
      Spaced (w :: ws) (w ++ t)

/-! ## What is translated -/

def isIdentifierChar (c : Char) : Bool :=
  Text.isAlnum c || c = '_' || c = '$'

/-- The identifier that items go on with. Words may have blanks in them, or nothing else. -/
def identifier : List Item → Text
  | .word w _ :: items =>
    if w.all Text.isBlank then identifier items else (Text.trimStart w).takeWhile isIdentifierChar
  | _ => []

/-- Some bar that stands directly in a group leads into the translation pipe. -/
def isTranslated : List Item → Bool
  | [] => false
  | .bar :: items => identifier items = translationPipe || isTranslated items
  | _ :: items => isTranslated items

/-- How a literal stands in one of the groups around it: whether the group is translated, and
whether the literal comes after the first bar that stands directly in the group. -/
structure Standing where
  translated : Bool
  afterBar : Bool
deriving Repr, DecidableEq

/-- A string literal of an expression, with its standing in every group around it. -/
structure Occurrence where
  content : Text
  enclosing : List Standing
deriving Repr, DecidableEq

def Occurrence.inside (standing : Standing) (o : Occurrence) : Occurrence :=
  { o with enclosing := standing :: o.enclosing }

/-- The standing of what follows an item in a group. -/
def Standing.after (standing : Standing) : Item → Standing
  | .bar => { standing with afterBar := true }
  | _ => standing

mutual

def Item.occurrences : Item → List Occurrence
  | .literal l => [⟨l.content, []⟩]
  | .group _ content => occurrences ⟨isTranslated content, false⟩ content
  | .word _ _ | .or | .bar => []

/-- The string literals of items that stand in a group. -/
def occurrences (standing : Standing) : List Item → List Occurrence
  | [] => []
  | item :: items =>
    item.occurrences.map (Occurrence.inside standing) ++ occurrences (standing.after item) items

end

namespace Occurrence

/-- Some group around the literal is translated, with the literal before its first bar. -/
def isOperand (o : Occurrence) : Bool :=
  o.enclosing.any fun standing => standing.translated && !standing.afterBar

/-- The literal comes after the first bar of some group around it. -/
def isArgument (o : Occurrence) : Bool :=
  o.enclosing.any Standing.afterBar

end Occurrence

/-- The keys of an expression: the literals with the shape of a key that are operands of the
translation pipe and no arguments of any pipe. -/
def translatedKeys (items : List Item) : List Text :=
  ((occurrences ⟨isTranslated items, false⟩ items).filter fun o =>
    HasKeyShape o.content && o.isOperand && !o.isArgument).map Occurrence.content

end KeyLint.Expression
