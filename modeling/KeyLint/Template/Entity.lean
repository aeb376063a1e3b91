import KeyLint.Text.Classes
import KeyLint.Text.Digits

/-!
# Character references

`&amp;`, `&#38;` and `&#x26;` stand for single characters in the text of a template. Decoding is one
pass from left to right; what is not a known reference stays as it is.
-/

namespace KeyLint.Template

/-- The characters that have names. -/
def namedCharacters : List (Text × Char) :=
  [("nbsp".toList, '\u00a0'), ("amp".toList, '&'), ("lt".toList, '<'), ("gt".toList, '>'),
   ("quot".toList, '"'), ("apos".toList, '\''), ("copy".toList, '©'), ("reg".toList, '®'),
   ("trade".toList, '™'), ("hellip".toList, '…'), ("mdash".toList, '—'), ("ndash".toList, '–'),
   ("laquo".toList, '«'), ("raquo".toList, '»'), ("middot".toList, '·'), ("bull".toList, '•')]

/-- The character that a reference stands for, from what is between `&` and `;`. -/
def referenced? (name : Text) : Option Char :=
  match name with
  | '#' :: 'x' :: digits | '#' :: 'X' :: digits => (Text.number? 16 digits).bind Text.charOfNat?
  | '#' :: digits => (Text.number? 10 digits).bind Text.charOfNat?
  | name => namedCharacters.lookup name

/-- A reference has at most this many bytes before its semicolon. -/
def maxReferenceBytes : Nat := 10

/-- The character of the reference that a text goes on with after `&`, and what follows it. -/
def reference? (t : Text) : Option (Char × Text) :=
  let name := t.takeWhile (· ≠ ';')
  match t.dropWhile (· ≠ ';') with
  | [] => none
  | _ :: rest =>
    if 1 + Text.bytes name ≤ maxReferenceBytes then
      (referenced? name).map fun c => (c, rest)
    else none

theorem length_lt_of_reference?_eq_some {t rest : Text} {c : Char}
    (h : reference? t = some (c, rest)) : rest.length < t.length := by
  have hle := Text.length_dropWhile_le (· ≠ ';') t
  simp only [reference?] at h
  split at h
  · simp at h
  · next hdrop =>
    rw [hdrop] at hle
    split at h
    · obtain ⟨_, _, heq⟩ := Option.map_eq_some_iff.mp h
      simp only [Prod.mk.injEq] at heq
      obtain ⟨_, rfl⟩ := heq
      simp only [List.length_cons] at hle
      omega
    · simp at h

/-- A text with its character references replaced. -/
def decodeEntities : Text → Text
  | [] => []
  | c :: cs =>
    if c = '&' then
      match _h : reference? cs with
      | some (d, rest) => d :: decodeEntities rest
      | none => c :: decodeEntities cs
    else c :: decodeEntities cs
termination_by t => t.length
decreasing_by
  · have := length_lt_of_reference?_eq_some _h
    simp only [List.length_cons]
    omega
  all_goals simp

end KeyLint.Template
