import KeyLint.Pattern

/-!
# Hard-coded wording

Which texts in a file are meant for the user. A text is reported unless one of the exemptions
applies; they are tried in a fixed order. Names on the denylist never hold text for the user.
-/

namespace KeyLint

/-- Why a text is not reported. -/
inductive Exemption where
  | noAlphabetic
  | ignorePattern
  | separator
  | email
  | reservedWord
  | technicalPrefix
  | translationKey
deriving Repr, DecidableEq, Inhabited

namespace Wording

/-! ## Shapes of texts that are not meant for the user -/

/-- A run of characters without blanks that has the form of a mail address: something, an at sign,
something, a dot, something. -/
def isAddress (run : Text) : Bool :=
  match (run.drop 1).dropWhile (· ≠ '@') with
  | _ :: _ :: domain => domain.dropLast.contains '.'
  | _ => false

/-- A text with a mail address in it. -/
def hasAddress (t : Text) : Bool :=
  (Text.splitWhere Text.isBlank t).any isAddress

/-- File formats, which stand as single words in programs. -/
def reservedWords : List Text :=
  ["xlsx".toList, "xlx".toList, "csv".toList, "pdf".toList, "png".toList]

/-- Beginnings of texts that are meant for a machine. -/
def technicalStarts : List Text :=
  ["/".toList, "#".toList, "http://".toList, "https://".toList, "access_denied".toList,
   "error_".toList, "success_".toList, "warning_".toList, "info_".toList, "debug_".toList,
   "data-".toList, "aria-".toList]

/-- A text begins with a word in small letters, up to case. -/
def startsFolded : (word : Text) → Text → Bool
  | [], _ => true
  | _ :: _, [] => false
  | letter :: word, c :: cs => Text.foldsTo letter c && startsFolded word cs

/-- A small ASCII letter or a digit. -/
def isKeyChar (c : Char) : Bool :=
  ('a' ≤ c && c ≤ 'z') || Text.isAsciiDigit c

/-- Two or more non-empty segments of small letters and digits with dots or underscores between. -/
def isKeyShaped (t : Text) : Bool :=
  let segments := Text.splitWhere (fun c => c = '.' || c = '_') t
  segments.length ≥ 2 && segments.all fun segment => !segment.isEmpty && segment.all isKeyChar

/-- The first exemption that applies to a text, if one does. The ignore pattern is looked for in the
text as it stands, the later shapes in the text without the blanks at its ends. -/
def exemption? (ignore : Option Pattern) (t : Text) : Option Exemption :=
  let u := Text.trim t
  if !Text.hasLetter t then some .noAlphabetic
  else if ignore.any fun pattern => pattern.occursIn t then some .ignorePattern
  else if u.contains '_' || u.contains '-' then some .separator
  else if hasAddress u then some .email
  else if reservedWords.any fun word => Text.eqIgnoringAsciiCase word u then some .reservedWord
  else if technicalStarts.any fun start => startsFolded start u then some .technicalPrefix
  else if isKeyShaped u then some .translationKey
  else none

/-- A reported text is cut to this many characters. -/
def maxReported : Nat := 50

/-- The attributes whose values are shown to the user. -/
def userFacingAttributes : List Text :=
  ["placeholder".toList, "title".toList, "alt".toList, "aria-label".toList,
   "aria-description".toList]

end Wording

/-! ## The denylist -/

/-- Words that mark names which never hold text for the user. -/
structure Denylist where
  words : List Text
deriving Repr, DecidableEq, Inhabited

namespace Denylist

/-- The words that are always on the denylist. -/
def builtin : List Text :=
  ["class", "style", "type", "form", "loading", "template", "icon", "size", "src", "href",
   "router", "query", "fragment", "preserve", "skip", "replace", "state", "button", "default",
   "validate", "element", "prefix", "direction", "styleClasses", "tooltipShowEvent", "keys",
   "option", "position", "append", "source", "test", "field", "autocomplete", "Id", "image", "url",
   "height", "width", "target", "pSortableColumn", "name", "alignment", "mode", "accept",
   "responsiveLayout"].map String.toList

/-- The denylist with the words of a pattern added. -/
def ofPattern (extra : Option Pattern) : Denylist :=
  ⟨(builtin ++ (extra.map Pattern.words).getD []).map Text.small⟩

/-- A name has a word of the denylist in it, in any case. -/
def hits (denylist : Denylist) (name : Text) : Bool :=
  denylist.words.any fun word => Text.occursIn word (Text.small name)

end Denylist

end KeyLint
