import KeyLint.Span

/-!
# Items of a template

What a template holds, as far as the rules look at it: a flat list of texts and attributes in
document order. `Welcome` is a text, `Hi {{ name }}` a bound text, `title="Close"` a text attribute,
`*transloco="…"` a structural one, and `[label]="…"` or `title="{{ x }}"` a bound attribute.
-/

namespace KeyLint.Template

/-- A text or an attribute of a template. -/
inductive Item where
  | text (value : Text) (span : Span)
  | boundText (source : Text) (span : Span)
  | textAttribute (name value : Text) (structural : Bool) (span : Span)
  | boundAttribute (name source : Text) (span : Span)
deriving Repr, DecidableEq, Inhabited

/-- The part of the template that an item occupies. -/
def Item.span : Item → Span
  | .text _ span | .boundText _ span | .textAttribute _ _ _ span | .boundAttribute _ _ span => span

/-- Why a template cannot be read: something in it is opened at an offset and never closed. -/
inductive Error where
  | unterminatedComment (offset : Nat)
  | unterminatedTag (name : Text) (offset : Nat)
  | unterminatedAttribute (offset : Nat)
  | unterminatedInterpolation (offset : Nat)
deriving Repr, DecidableEq, Inhabited

namespace Error

/-- Where the thing that is never closed begins. -/
def offset : Error → Nat
  | .unterminatedComment offset | .unterminatedTag _ offset | .unterminatedAttribute offset
  | .unterminatedInterpolation offset => offset

/-- What is said about a template that cannot be read. -/
def message : Error → Text
  | .unterminatedComment offset =>
    "unterminated comment starting at byte ".toList ++ Text.ofNat offset
  | .unterminatedTag name offset =>
    "unterminated tag <".toList ++ name ++ "> starting at byte ".toList ++ Text.ofNat offset
  | .unterminatedAttribute offset =>
    "unterminated attribute value starting at byte ".toList ++ Text.ofNat offset
  | .unterminatedInterpolation offset =>
    "unterminated interpolation starting at byte ".toList ++ Text.ofNat offset

end Error

end KeyLint.Template
