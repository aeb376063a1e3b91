import KeyLint.Text.Classes

/-!
# Quoted tokens of an expression

Keys stand in expressions as quoted tokens with dots in them. A quoted token is looked for by its
shape alone: a quote, a run of characters that are neither quotes nor blanks, and a quote again.
A binding that is nothing but one string literal holds plain text instead of a key.
-/

namespace KeyLint.Expression

/-- A single or a double quote. -/
def isQuote (c : Char) : Bool :=
  c = '\'' || c = '"'

/-- A character inside a segment of a key other than the first and the last. -/
def isInnerKeyChar (c : Char) : Bool :=
  Text.isWordChar c || c = '-'

/-- The form of a key: segments with dots between them, of which the first and the last are not
empty and all others hold word characters and hyphens only. -/
def isKeyToken (t : Text) : Bool :=
  match Text.splitOn '.' t with
  | first :: second :: more =>
    let segments := second :: more
    !first.isEmpty && !(segments.getLast?.getD []).isEmpty
      && segments.dropLast.all fun segment => segment.all isInnerKeyChar
  | _ => false

/-- The key that a text goes on with after an opening quote, and what follows its closing quote. -/
def keyAfterQuote? (t : Text) : Option (Text × Text) :=
  let content := t.takeWhile fun c => !isQuote c && !Text.isBlank c
  match t.dropWhile fun c => !isQuote c && !Text.isBlank c with
  | [] => none
  | c :: rest => if isQuote c && isKeyToken content then some (content, rest) else none

theorem length_lt_of_keyAfterQuote?_eq_some {t content rest : Text}
    (h : keyAfterQuote? t = some (content, rest)) : rest.length < t.length := by
  have hle := Text.length_dropWhile_le (fun c => !isQuote c && !Text.isBlank c) t
  simp only [keyAfterQuote?] at h
  split at h
  · simp at h
  · next hdrop =>
    rw [hdrop] at hle
    split at h
    · simp only [Option.some.injEq, Prod.mk.injEq] at h
      obtain ⟨_, rfl⟩ := h
      simp only [List.length_cons] at hle
      omega
    · simp at h

/-- A quoted key and the place of its opening quote among the characters of an expression. -/
structure QuotedKey where
  place : Nat
  key : Text
deriving Repr, DecidableEq, Inhabited

/-- The quoted keys of a text whose first character has the given place. They do not overlap. -/
def quotedKeys (place : Nat) (t : Text) : List QuotedKey :=
  match t with
  | [] => []
  | c :: cs =>
    if isQuote c then
      match _h : keyAfterQuote? cs with
      | some (key, rest) =>
        ⟨place, key⟩ :: quotedKeys (place + (1 + cs.length - rest.length)) rest
      | none => quotedKeys (place + 1) cs
    else quotedKeys (place + 1) cs
termination_by t.length
decreasing_by
  · have := length_lt_of_keyAfterQuote?_eq_some _h
    simp only [List.length_cons]
    omega
  all_goals simp

/-! ## Structural `read` clauses -/

/-- The key of the clause `read: '…'` that a text begins with, and what follows it. -/
def readClause? (t : Text) : Option (Text × Text) :=
  match Text.after? "read".toList t with
  | none => none
  | some rest =>
    match rest.dropWhile Text.isBlank with
    | ':' :: rest =>
      match rest.dropWhile Text.isBlank with
      | c :: rest => if isQuote c then keyAfterQuote? rest else none
      | [] => none
    | _ => none

theorem length_lt_of_readClause?_eq_some {t key rest : Text}
    (h : readClause? t = some (key, rest)) : rest.length < t.length := by
  unfold readClause? at h
  split at h
  · simp at h
  · next tail hafter =>
    have h1 := Text.length_lt_of_after?_eq_some (by decide) hafter
    have h2 := Text.length_dropWhile_le Text.isBlank tail
    split at h
    · next colon hcolon =>
      rw [hcolon] at h2
      have h3 := Text.length_dropWhile_le Text.isBlank colon
      split at h
      · next hquote =>
        rw [hquote] at h3
        split at h
        · have h4 := length_lt_of_keyAfterQuote?_eq_some h
          simp only [List.length_cons] at h2 h3
          omega
        · simp at h
      · simp at h
    · simp at h

/-- The keys of the `read` clauses of a text. `inWord` says that the character before it is a word
character, so that no clause can begin right away. -/
def readKeys (inWord : Bool) (t : Text) : List Text :=
  match t with
  | [] => []
  | c :: cs =>
    match _h : if inWord then none else readClause? (c :: cs) with
    | some (key, rest) => key :: readKeys false rest
    | none => readKeys (Text.isWordChar c) cs
termination_by t.length
decreasing_by
  · split at _h
    · simp at _h
    · exact length_lt_of_readClause?_eq_some _h
  · simp

/-! ## String literals -/

/-- A text in which no quote stands unless a backslash takes it. `escaped` says that the character
before the text is such a backslash. -/
def isFreeOf (quote : Char) : (escaped : Bool) → Text → Bool
  | _, [] => true
  | true, _ :: cs => isFreeOf quote false cs
  | false, c :: cs =>
    if c = '\\' then isFreeOf quote true cs
    else if c = quote then false
    else isFreeOf quote false cs

/-- What stands between the quotes of an expression that is one string literal. -/
def stringLiteral? (source : Text) : Option Text :=
  match Text.trim source with
  | [] => none
  | quote :: rest =>
    if isQuote quote then
      match Text.before? [quote] rest with
      | some inner => if isFreeOf quote false inner then some inner else none
      | none => none
    else none

end KeyLint.Expression
