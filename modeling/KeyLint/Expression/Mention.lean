import KeyLint.Text.Classes

/-!
# Mentions of the translation pipe

Quick tests that decide whether a text, an attribute or a binding is worth looking into for keys.
-/

namespace KeyLint.Expression

/-- The name of the pipe and of the directive that translate keys. -/
def translationPipe : Text := "transloco".toList

/-- A text pipes something into the translation pipe, with or without a blank after the bar. -/
def textMentions (t : Text) : Bool :=
  Text.occursIn ("| ".toList ++ translationPipe) t || Text.occursIn ('|' :: translationPipe) t

/-- An attribute is the translation directive or has its name in its value, in any case. -/
def attributeMentions (name value : Text) : Bool :=
  name = translationPipe || Text.occursIn translationPipe (Text.small value)

/-- A binding or a text with interpolations has the name of the translation pipe in it. -/
def sourceMentions (source : Text) : Bool :=
  Text.occursIn translationPipe source

end KeyLint.Expression
