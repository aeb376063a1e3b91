import KeyLint.Text.Basic

/-!
# Globs

A glob describes paths. `?` stands for any character, `*` for any sequence of characters, `[…]` for
a character of a set and `[!…]` for one outside it. `**` stands for any number of directories; it
has to be a whole component of the path, and takes the slash after it along.
-/

namespace KeyLint.Glob

/-- A member of a character set. -/
inductive Member where
  | single (c : Char)
  | range (first last : Char)
deriving Repr, DecidableEq, Inhabited

/-- A member covers a character. -/
def Member.covers (c : Char) : Member → Bool
  | .single d => c = d
  | .range first last => first ≤ c && c ≤ last

/-- A piece of a glob. -/
inductive Token where
  | char (c : Char)
  | anyChar
  | anySequence
  | anyDirectories
  | within (members : List Member)
  | outside (members : List Member)
deriving Repr, DecidableEq, Inhabited

/-- What is wrong with a glob. -/
inductive Fault where
  | wildcards
  | directories
  | set
deriving Repr, DecidableEq, Inhabited

/-- What is said about a fault. -/
def Fault.message : Fault → Text
  | .wildcards => "wildcards are either regular \x60*\x60 or recursive \x60**\x60".toList
  | .directories => "recursive wildcards must form a single path component".toList
  | .set => "invalid range pattern".toList

/-- A fault and the number of characters before the place where it is noticed. -/
structure Error where
  position : Nat
  fault : Fault
deriving Repr, DecidableEq, Inhabited

/-- What is said about a glob that cannot be read. -/
def Error.message (e : Error) : Text :=
  "Pattern syntax error near position ".toList ++ Text.ofNat e.position ++ ": ".toList
    ++ e.fault.message

/-! ## Reading -/

/-- The members of a character set. A hyphen between two characters makes them a range. -/
def members : Text → List Member
  | first :: '-' :: last :: cs => .range first last :: members cs
  | c :: cs => .single c :: members cs
  | [] => []

/-- The members of a set whose first character is `first`, up to the closing bracket after it, and
what follows that bracket. -/
def set? (first : Char) (cs : Text) : Option (List Member × Text) :=
  (Text.cut? [']'] cs).map fun (inside, rest) => (members (first :: inside), rest)

/-- The set that starts after an opening bracket, and what follows its closing bracket. The first
character of a set never closes it. -/
def bracket? : Text → Option (Token × Text)
  | '!' :: first :: cs => (set? first cs).map fun (ms, rest) => (.outside ms, rest)
  | '!' :: [] => none
  | first :: cs => (set? first cs).map fun (ms, rest) => (.within ms, rest)
  | [] => none

theorem length_lt_of_set?_eq_some {first : Char} {cs rest : Text} {ms : List Member}
    (h : set? first cs = some (ms, rest)) : rest.length < cs.length := by
  obtain ⟨⟨inside, r⟩, hcut, heq⟩ := Option.map_eq_some_iff.mp h
  simp only [Prod.mk.injEq] at heq
  obtain ⟨_, rfl⟩ := heq
  have := Text.length_le_of_cut?_eq_some hcut
  simp only [List.length_singleton] at this
  omega

theorem length_lt_of_bracket?_eq_some {cs rest : Text} {token : Token}
    (h : bracket? cs = some (token, rest)) : rest.length < cs.length := by
  unfold bracket? at h
  split at h
  · obtain ⟨⟨ms, r⟩, hset, heq⟩ := Option.map_eq_some_iff.mp h
    simp only [Prod.mk.injEq] at heq
    obtain ⟨_, rfl⟩ := heq
    have := length_lt_of_set?_eq_some hset
    simp only [List.length_cons]
    omega
  · simp at h
  · obtain ⟨⟨ms, r⟩, hset, heq⟩ := Option.map_eq_some_iff.mp h
    simp only [Prod.mk.injEq] at heq
    obtain ⟨_, rfl⟩ := heq
    have := length_lt_of_set?_eq_some hset
    simp only [List.length_cons]
    omega
  · simp at h

/-- The tokens with one more token for directories, which a token for directories before it takes in
unless that one is the very first. `tokens` has the last token first. -/
def addDirectories : (tokens : List Token) → List Token
  | .anyDirectories :: token :: tokens => .anyDirectories :: token :: tokens
  | tokens => .anyDirectories :: tokens

/-- Reads the rest of a glob at a position, after the character `previous` and the tokens `tokens`,
the last of them first. -/
def readFrom (position : Nat) (previous : Option Char) (tokens : List Token) (t : Text) :
    Except Error (List Token) :=
  match t with
  | [] => .ok tokens.reverse
  | '*' :: '*' :: '*' :: _ => .error ⟨position + 2, .wildcards⟩
  | '*' :: '*' :: cs =>
    if previous ≠ none ∧ previous ≠ some '/' then .error ⟨position - 1, .directories⟩
    else
      match cs with
      | [] => .ok (addDirectories tokens).reverse
      | '/' :: cs => readFrom (position + 3) (some '/') (addDirectories tokens) cs
      | _ => .error ⟨position + 2, .directories⟩
  | '*' :: cs => readFrom (position + 1) (some '*') (.anySequence :: tokens) cs
  | '?' :: cs => readFrom (position + 1) (some '?') (.anyChar :: tokens) cs
  | '[' :: cs =>
    match h : bracket? cs with
    | none => .error ⟨position, .set⟩
    | some (token, rest) =>
      have := length_lt_of_bracket?_eq_some h
      readFrom (position + 1 + (cs.length - rest.length)) (some ']') (token :: tokens) rest
  | c :: cs => readFrom (position + 1) (some c) (.char c :: tokens) cs
termination_by t.length
decreasing_by all_goals simp only [List.length_cons]; omega

end Glob

/-- A glob that was read. -/
structure Glob where
  tokens : List Glob.Token
deriving Repr, DecidableEq, Inhabited

namespace Glob

/-- Reads a glob. -/
def parse (t : Text) : Except Error Glob :=
  (readFrom 0 none [] t).map Glob.mk

/-! ## Matching -/

/-- What is left of a text after each of its slashes. -/
def afterSlashes : Text → List Text
  | [] => []
  | '/' :: cs => cs :: afterSlashes cs
  | _ :: cs => afterSlashes cs

/-- A text and what is left of it after each of its characters. -/
def endings : Text → List Text
  | [] => [[]]
  | c :: cs => (c :: cs) :: endings cs

/-- The tokens describe a text. A sequence may have any length and any characters, slashes too; for
directories, as much of the text as ends with a slash, nothing or all of it may stand. -/
def describes : List Token → Text → Bool
  | [], t => t.isEmpty
  | .anySequence :: tokens, t => (endings t).any (describes tokens)
  | .anyDirectories :: tokens, t =>
    (t :: afterSlashes t ++ [[]]).any (describes tokens)
  | .char c :: tokens, t =>
    match t with
    | [] => false
    | d :: cs => c = d && describes tokens cs
  | .anyChar :: tokens, t =>
    match t with
    | [] => false
    | _ :: cs => describes tokens cs
  | .within ms :: tokens, t =>
    match t with
    | [] => false
    | d :: cs => ms.any (·.covers d) && describes tokens cs
  | .outside ms :: tokens, t =>
    match t with
    | [] => false
    | d :: cs => !ms.any (·.covers d) && describes tokens cs

/-- A glob describes a text. -/
def accepts (g : Glob) (t : Text) : Bool :=
  describes g.tokens t

/-- The text that a glob without wildcards and sets describes. -/
def literal? (g : Glob) : Option Text :=
  g.tokens.mapM fun
    | .char c => some c
    | _ => none

/-- A text is meant as a glob and not as the path of one file or directory. -/
def isWildcard (t : Text) : Bool :=
  t.contains '*' || t.contains '?'

end Glob

end KeyLint
