import KeyLint.Text.Classes

/-!
# Name patterns

A pattern such as `(theme|variant)Name` stands for a finite list of words. It is read by a small
grammar: an alternation is one or more sequences with bars between them, a sequence is one or more
letters, digits, `_`, `-`, `,` or parenthesised alternations. A text matches if one of the words
occurs in it.

Reading goes from left to right over a stack of levels, one for each parenthesis that is still
open, and keeps at every level the words read so far.
-/

namespace KeyLint

/-- The largest number of characters of a pattern. -/
def Pattern.maxLength : Nat := 1000

/-- The largest number of words a pattern may stand for. -/
def Pattern.maxWords : Nat := 256

/-- Ways in which a pattern could make a backtracking matcher run away. -/
inductive RunawayShape where
  | repeatedWildcards
  | nestedQuantifiers
deriving Repr, DecidableEq

/-- Why a pattern is refused. -/
inductive PatternError where
  | tooLong
  | catastrophic (shape : RunawayShape)
  | backreference
  | unsupportedChar (c : Char)
  | unbalancedParens
  | emptyAlternative
  | tooManyAlternatives
deriving Repr, DecidableEq

/-- The name of a runaway shape in a message. -/
def RunawayShape.name : RunawayShape → Text
  | .repeatedWildcards => "repeated wildcards".toList
  | .nestedQuantifiers => "nested quantifiers".toList

/-- What is said about a refused pattern. -/
def PatternError.message : PatternError → Text
  | .tooLong =>
    "pattern is longer than ".toList ++ Text.ofNat Pattern.maxLength ++ " characters".toList
  | .catastrophic shape => shape.name ++ " can cause catastrophic backtracking".toList
  | .backreference => "backreferences are not supported".toList
  | .unsupportedChar c => "unsupported character '".toList ++ [c] ++ "'".toList
  | .unbalancedParens => "unbalanced parentheses".toList
  | .emptyAlternative => "empty alternative".toList
  | .tooManyAlternatives =>
    "pattern expands to more than ".toList ++ Text.ofNat Pattern.maxWords ++ " alternatives".toList

/-- A pattern that was read: its own text and the words it stands for. -/
structure Pattern where
  source : Text
  words : List Text
deriving Repr, DecidableEq

namespace Pattern

/-! ## The shape of a pattern -/

/-- The spellings of runaway shapes, in the order in which they are looked for. -/
def runawaySpellings : List (Text × RunawayShape) :=
  [(".*.*".toList, .repeatedWildcards), (".+.+".toList, .repeatedWildcards),
   ("+)+".toList, .nestedQuantifiers), ("+)*".toList, .nestedQuantifiers),
   ("*)+".toList, .nestedQuantifiers), ("*)*".toList, .nestedQuantifiers),
   ("\x7d+".toList, .nestedQuantifiers), ("\x7d*".toList, .nestedQuantifiers)]

/-- A backslash stands directly before a digit. -/
def hasBackreference : Text → Bool
  | '\\' :: d :: cs => Text.isAsciiDigit d || hasBackreference (d :: cs)
  | _ :: cs => hasBackreference cs
  | [] => false

/-- A character that stands for itself in a pattern. -/
def isLiteral (c : Char) : Bool :=
  Text.isAsciiAlnum c || c = '_' || c = '-' || c = ','

/-- A character that may stand in a pattern at all. -/
def isAllowed (c : Char) : Bool :=
  isLiteral c || c = '|' || c = '(' || c = ')'

/-- Every closing parenthesis has an opening one before it and none is left open, counting from
`depth` open ones. -/
def isBalanced : (depth : Nat) → Text → Bool
  | depth, [] => depth == 0
  | depth, '(' :: cs => isBalanced (depth + 1) cs
  | 0, ')' :: _ => false
  | depth + 1, ')' :: cs => isBalanced depth cs
  | depth, _ :: cs => isBalanced depth cs

/-- The first fault in the shape of a pattern, if it has one. -/
def shapeError? (source : Text) : Option PatternError :=
  if source.length > maxLength then some .tooLong
  else
    match runawaySpellings.find? fun (spelling, _) => Text.occursIn spelling source with
    | some (_, shape) => some (.catastrophic shape)
    | none =>
      if hasBackreference source then some .backreference
      else
        match source.find? fun c => !isAllowed c with
        | some c => some (.unsupportedChar c)
        | none => if isBalanced 0 source then none else some .unbalancedParens

/-! ## Expansion into words -/

/-- What has been read at one level of parentheses: the words of the finished sequences, the words
of the sequence being read, and whether that one has no element yet. -/
structure Level where
  done : List Text := []
  current : List Text := [[]]
  isBlank : Bool := true
deriving Repr, DecidableEq

/-- All words that begin with a word of `heads` and end with a word of `tails`, the first varying
slowest. -/
def product (heads tails : List Text) : List Text :=
  heads.flatMap fun head => tails.map fun tail => head ++ tail

namespace Level

/-- The words of a level once its last sequence ends. -/
def close (level : Level) : Except PatternError (List Text) :=
  if level.isBlank then .error .emptyAlternative
  else if (level.done ++ level.current).length > maxWords then .error .tooManyAlternatives
  else .ok (level.done ++ level.current)

/-- The level after one more literal character. -/
def literal (level : Level) (c : Char) : Level :=
  { level with current := level.current.map (· ++ [c]), isBlank := false }

/-- The level after a group with the given words. -/
def group (level : Level) (words : List Text) : Except PatternError Level :=
  if level.current.length * words.length > maxWords then .error .tooManyAlternatives
  else .ok { level with current := product level.current words, isBlank := false }

end Level

/-- The words of the rest of a pattern, read at `level` inside the levels `outer`. -/
def expandFrom : (outer : List Level) → (level : Level) → Text → Except PatternError (List Text)
  | [], level, [] => level.close
  | _ :: _, _, [] => .error .unbalancedParens
  | outer, level, c :: cs =>
    if c = '(' then expandFrom (level :: outer) {} cs
    else if c = '|' then
      match level.close with
      | .error e => .error e
      | .ok words => expandFrom outer { done := words } cs
    else if c = ')' then
      match level.close with
      | .error e => .error e
      | .ok words =>
        match outer with
        | [] => .error .unbalancedParens
        | parent :: outer =>
          match parent.group words with
          | .error e => .error e
          | .ok level => expandFrom outer level cs
    else expandFrom outer (level.literal c) cs

/-- Reads a pattern. -/
def parse (source : Text) : Except PatternError Pattern :=
  match shapeError? source with
  | some e => .error e
  | none =>
    match expandFrom [] {} source with
    | .error e => .error e
    | .ok words => .ok ⟨source, words⟩

/-- Some word of the pattern occurs in the text. -/
def occursIn (p : Pattern) (t : Text) : Bool :=
  p.words.any fun word => Text.occursIn word t

end Pattern

end KeyLint
