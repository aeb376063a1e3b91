import KeyLint.Template.Reader

/-!
# Templates written from pieces

A grammar of well-formed templates. A template is a list of pieces: texts and interpolations, the
headers and closing braces of control flow, and markup. A piece is written as a text, and a list of
pieces has items: one for every run of texts and interpolations that nothing divides, unless it is
blank, and one for every attribute that its name does not exclude.
-/

namespace KeyLint.Template

/-! ## Texts and interpolations -/

/-- A piece of a text that the reader of a template sees. -/
inductive Inline where
  | text (t : Text) (hne : t ≠ [])
      (hplain : ∀ c ∈ t, c ≠ '<' ∧ c ≠ '\x7b' ∧ c ≠ '\x7d' ∧ c ≠ '@')
  | interpolation (e : Text) (hfree : ¬ ['\x7d', '\x7d'] <:+: e) (hlast : e.getLast? ≠ some '\x7d')

namespace Inline

def render : Inline → Text
  | text t _ _ => t
  | interpolation e _ _ => '\x7b' :: '\x7b' :: (e ++ ['\x7d', '\x7d'])

def isInterpolation : Inline → Bool
  | text _ _ _ => false
  | interpolation _ _ _ => true

end Inline

/-! ## Control flow -/

/-- The parentheses of a text match. -/
inductive Balanced : Text → Prop
  | nil : Balanced []
  | char {c : Char} {t : Text} (hopen : c ≠ '(') (hclose : c ≠ ')') (ht : Balanced t) :
      Balanced (c :: t)
  | group {s t : Text} (hs : Balanced s) (ht : Balanced t) : Balanced ('(' :: (s ++ ')' :: t))

/-- The condition of a block, in parentheses, with the blanks after it. -/
structure Condition where
  inner : Text
  blanks : Text
  balanced : Balanced inner
  noMarkup : '<' ∉ inner
  noInterpolation : ¬ ['\x7b', '\x7b'] <:+: inner
  blank : ∀ c ∈ blanks, Text.isAsciiBlank c = true

def Condition.render (condition : Condition) : Text :=
  '(' :: (condition.inner ++ ')' :: condition.blanks)

/-- The word or the two words that open a block. -/
inductive Keyword where
  | word (w : Text) (hw : w ∈ blockKeywords)
  | elseIf (blanks : Text) (hne : blanks ≠ []) (hblank : ∀ c ∈ blanks, Text.isAsciiBlank c = true)

def Keyword.render : Keyword → Text
  | word w _ => w
  | elseIf blanks _ _ => "else".toList ++ blanks ++ "if".toList

/-- What divides two texts without being markup. -/
inductive Divider where
  | header (keyword : Keyword) (blanks : Text) (hblank : ∀ c ∈ blanks, Text.isAsciiBlank c = true)
      (condition : Option Condition)
  | declaration (d : Text) (hword : ∀ c ∈ d.head?, Text.isAsciiLetter c = false)
      (hend : ';' ∉ d) (hmarkup : '<' ∉ d) (hfree : ¬ ['\x7b', '\x7b'] <:+: d)
  | closing

namespace Divider

/-- What stands between the `@` and the opening brace of a block. -/
def headerText (keyword : Keyword) (blanks : Text) (condition : Option Condition) : Text :=
  keyword.render ++ (blanks ++ (condition.map Condition.render).getD [])

def render : Divider → Text
  | header keyword blanks _ condition => '@' :: (headerText keyword blanks condition ++ ['\x7b'])
  | declaration d _ _ _ _ => '@' :: ("let".toList ++ (d ++ [';']))
  | closing => ['\x7d']

end Divider

/-! ## Markup -/

structure QuotedValue where
  quote : Char
  text : Text
  isQuote : quote = '"' ∨ quote = '\''
  free : quote ∉ text

/-- An attribute in a tag, with the blanks before it. -/
structure AttributePiece where
  blanks : Text
  name : Text
  value : Option QuotedValue
  blanks_ne : blanks ≠ []
  blank : ∀ c ∈ blanks, Text.isAsciiBlank c = true
  name_ne : name ≠ []
  isName : ∀ c ∈ name,
    Text.isAsciiBlank c = false ∧ c ≠ '=' ∧ c ≠ '>' ∧ c ≠ '"' ∧ c ≠ '\'' ∧ c ≠ '/'

namespace AttributePiece

def assignment (a : AttributePiece) : Text :=
  match a.value with
  | none => []
  | some v => '=' :: v.quote :: (v.text ++ [v.quote])

def render (a : AttributePiece) : Text :=
  a.blanks ++ (a.name ++ a.assignment)

def valueText (a : AttributePiece) : Text :=
  match a.value with
  | none => []
  | some v => v.text

/-- The item of an attribute written at an offset; the blanks before it do not belong to it. -/
def item? (offset : Nat) (a : AttributePiece) : Option Item :=
  classify? a.name a.valueText ⟨offset + Text.bytes a.blanks, offset + Text.bytes a.render⟩

/-- The items of attributes written one after the other from an offset on. -/
def items : (offset : Nat) → List AttributePiece → List Item
  | _, [] => []
  | offset, a :: attributes =>
    (a.item? offset).toList ++ items (offset + Text.bytes a.render) attributes

end AttributePiece

/-- A start tag up to the blanks before its end. -/
structure Tag where
  initial : Char
  name : Text
  attributes : List AttributePiece
  blanks : Text
  isLetter : Text.isAsciiLetter initial = true
  isName : ∀ c ∈ name, isTagNameChar c = true
  blank : ∀ c ∈ blanks, Text.isAsciiBlank c = true

namespace Tag

def fullName (tag : Tag) : Text := tag.initial :: tag.name

def render (tag : Tag) : Text :=
  '<' :: (tag.fullName ++ (tag.attributes.flatMap AttributePiece.render ++ tag.blanks))

def items (offset : Nat) (tag : Tag) : List Item :=
  AttributePiece.items (offset + 1 + Text.bytes tag.fullName) tag.attributes

end Tag

def tagEnd (selfClosing : Bool) : Text :=
  if selfClosing then ['/', '>'] else ['>']

/-- A piece of markup. The content of a raw element ends at the first end tag with its name. -/
inductive Markup where
  | comment (c : Text) (hfree : ¬ "-->".toList <:+: c)
  | declaration (d : Text) (hfree : '>' ∉ d) (hcomment : ¬ "--".toList <+: d)
  | endTag (t : Text) (hfree : '>' ∉ t)
  | startTag (tag : Tag) (selfClosing : Bool)
      (hraw : selfClosing = false →
        ∀ raw ∈ rawElements, Text.eqIgnoringAsciiCase raw tag.fullName = false)
  | rawElement (tag : Tag) (raw content endName endRest : Text) (hraw : raw ∈ rawElements)
      (hname : Text.eqIgnoringAsciiCase raw tag.fullName = true)
      (hcontent : ∀ w, w <:+: content → Text.eqIgnoringAsciiCase ("</".toList ++ raw) w = false)
      (hend : Text.eqIgnoringAsciiCase raw endName = true) (hfree : '>' ∉ endRest)

namespace Markup

def render : Markup → Text
  | comment c _ => "<!--".toList ++ (c ++ "-->".toList)
  | declaration d _ _ => "<!".toList ++ (d ++ ['>'])
  | endTag t _ => "</".toList ++ (t ++ ['>'])
  | startTag tag selfClosing _ => tag.render ++ tagEnd selfClosing
  | rawElement tag _ content endName endRest _ _ _ _ _ =>
    tag.render ++ (tagEnd false ++ (content ++ ("</".toList ++ (endName ++ (endRest ++ ['>'])))))

def items (offset : Nat) : Markup → List Item
  | startTag tag _ _ | rawElement tag _ _ _ _ _ _ _ _ _ => tag.items offset
  | comment _ _ | declaration _ _ _ | endTag _ _ => []

end Markup

/-! ## Templates -/

inductive RegionPiece where
  | inline (i : Inline)
  | divider (d : Divider)

def RegionPiece.render : RegionPiece → Text
  | inline i => i.render
  | divider d => d.render

inductive Piece where
  | region (r : RegionPiece)
  | markup (m : Markup)

def Piece.render : Piece → Text
  | region r => r.render
  | markup m => m.render

/-- A template as it is written from its pieces. -/
def render (pieces : List Piece) : Text :=
  pieces.flatMap Piece.render

/-- Texts and interpolations that nothing divides, from an offset on. -/
structure Run where
  start : Nat
  pieces : List Inline := []

namespace Run

def text (run : Run) : Text :=
  run.pieces.flatMap Inline.render

def stop (run : Run) : Nat :=
  run.start + Text.bytes run.text

def add (run : Run) (i : Inline) : Run :=
  { run with pieces := run.pieces ++ [i] }

/-- The item of a run, without the blanks around it; a run of blanks has none. It is bound if there
is an interpolation in it, and a text with its character references decoded otherwise. -/
def items (run : Run) : List Item :=
  let trimmed := Text.trim run.text
  let start := run.start + Text.bytes (run.text.takeWhile Text.isBlank)
  let span : Span := ⟨start, start + Text.bytes trimmed⟩
  if trimmed = [] then []
  else if run.pieces.any Inline.isInterpolation then [.boundText trimmed span]
  else [.text (decodeEntities trimmed) span]

end Run

/-- The items of pieces that follow a run. -/
def itemsAfter : Run → List Piece → List Item
  | run, [] => run.items
  | run, .region (.inline i) :: pieces => itemsAfter (run.add i) pieces
  | run, .region (.divider d) :: pieces =>
    run.items ++ itemsAfter { start := run.stop + Text.bytes d.render } pieces
  | run, .markup m :: pieces =>
    run.items ++ (m.items run.stop ++ itemsAfter { start := run.stop + Text.bytes m.render } pieces)

end KeyLint.Template
