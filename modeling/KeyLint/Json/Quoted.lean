import KeyLint.Text.Digits

/-!
# Quoted texts

How a text is written as a JSON string, and how such a string is read. A quote, a backslash and
every control character below the blank are written as escapes; anything else stands for itself.
-/

namespace KeyLint.Json.Quoted

/-! ## Writing -/

/-- A hexadecimal digit, in small letters. -/
def hexDigit (n : Nat) : Char := Nat.digitChar (n % 16)

/-- A character as it is written between the quotes. -/
def escape (c : Char) : Text :=
  if c = '"' then "\\\"".toList
  else if c = '\\' then "\\\\".toList
  else if c = '\x08' then "\\b".toList
  else if c = '\x0c' then "\\f".toList
  else if c = '\n' then "\\n".toList
  else if c = '\r' then "\\r".toList
  else if c = '\t' then "\\t".toList
  else if c.toNat < 0x20 then "\\u00".toList ++ [hexDigit (c.toNat / 16), hexDigit c.toNat]
  else [c]

/-- A text in quotes. -/
def write (t : Text) : Text :=
  "\"".toList ++ t.flatMap escape ++ "\"".toList

/-! ## Reading -/

/-- The character that a letter after a backslash stands for. -/
def unescape? : Char → Option Char
  | '"' => some '"'
  | '\\' => some '\\'
  | '/' => some '/'
  | 'b' => some '\x08'
  | 'f' => some '\x0c'
  | 'n' => some '\n'
  | 'r' => some '\r'
  | 't' => some '\t'
  | _ => none

/-- The code unit that four hexadecimal digits write, and what follows them. -/
def unit? : Text → Option (Nat × Text)
  | a :: b :: c :: d :: rest => (Text.hexValue? [a, b, c, d]).map fun n => (n, rest)
  | _ => none

/-- The character that starts with the code unit after `\u`, and what follows it. A unit from the
high surrogates needs a unit from the low surrogates after it, and a low one never comes first. -/
def unitChar? (t : Text) : Option (Char × Text) :=
  match unit? t with
  | none => none
  | some (high, rest) =>
    if high < 0xd800 || 0xe000 ≤ high then some (Char.ofNat high, rest)
    else if 0xdc00 ≤ high then none
    else
      match rest with
      | '\\' :: 'u' :: rest =>
        match unit? rest with
        | none => none
        | some (low, rest) =>
          if 0xdc00 ≤ low && low < 0xe000 then
            some (Char.ofNat (0x10000 + (high - 0xd800) * 0x400 + (low - 0xdc00)), rest)
          else none
      | _ => none

/-- The first character of what is written between quotes, and what follows it. -/
def char? : Text → Option (Char × Text)
  | '\\' :: 'u' :: rest => unitChar? rest
  | '\\' :: c :: rest => (unescape? c).map fun c => (c, rest)
  | c :: rest => if c = '\\' || c = '"' || c.toNat < 0x20 then none else some (c, rest)
  | [] => none

theorem length_lt_of_unit?_eq_some {t rest : Text} {n : Nat} (h : unit? t = some (n, rest)) :
    rest.length < t.length := by
  unfold unit? at h
  split at h
  · obtain ⟨_, _, heq⟩ := Option.map_eq_some_iff.mp h
    simp only [Prod.mk.injEq] at heq
    obtain ⟨_, rfl⟩ := heq
    simp only [List.length_cons]
    omega
  · simp at h

theorem length_lt_of_unitChar?_eq_some {t rest : Text} {c : Char}
    (h : unitChar? t = some (c, rest)) : rest.length < t.length := by
  unfold unitChar? at h
  split at h
  · simp at h
  · next high rest₁ hunit =>
    have hlt := length_lt_of_unit?_eq_some hunit
    split at h
    · simp only [Option.some.injEq, Prod.mk.injEq] at h
      exact h.2 ▸ hlt
    · split at h
      · simp at h
      · split at h
        · next rest₂ =>
          split at h
          · simp at h
          · next low rest₃ hlow =>
            have hlt₂ := length_lt_of_unit?_eq_some hlow
            split at h
            · simp only [Option.some.injEq, Prod.mk.injEq] at h
              obtain ⟨_, rfl⟩ := h
              simp only [List.length_cons] at hlt
              omega
            · simp at h
        · simp at h

theorem length_lt_of_char?_eq_some {t rest : Text} {c : Char} (h : char? t = some (c, rest)) :
    rest.length < t.length := by
  unfold char? at h
  split at h
  · have := length_lt_of_unitChar?_eq_some h
    simp only [List.length_cons]
    omega
  · obtain ⟨_, _, heq⟩ := Option.map_eq_some_iff.mp h
    simp only [Prod.mk.injEq] at heq
    obtain ⟨_, rfl⟩ := heq
    simp only [List.length_cons]
    omega
  · split at h
    · simp at h
    · simp only [Option.some.injEq, Prod.mk.injEq] at h
      obtain ⟨_, rfl⟩ := h
      simp
  · simp at h

/-- The text before the closing quote, and what follows that quote. -/
def read? (t : Text) : Option (Text × Text) :=
  match t with
  | '"' :: rest => some ([], rest)
  | t =>
    match h : char? t with
    | none => none
    | some (c, rest) =>
      have := length_lt_of_char?_eq_some h
      (read? rest).map fun (cs, rest) => (c :: cs, rest)
termination_by t.length

theorem length_lt_of_read?_eq_some {t s rest : Text} (h : read? t = some (s, rest)) :
    rest.length < t.length := by
  fun_induction read? t generalizing s with
  | case1 rest' =>
    simp only [Option.some.injEq, Prod.mk.injEq] at h
    obtain ⟨_, rfl⟩ := h
    simp
  | case2 => simp at h
  | case3 t _ c rest' hchar hlt ih =>
    obtain ⟨⟨s', r⟩, hread, heq⟩ := Option.map_eq_some_iff.mp h
    simp only [Prod.mk.injEq] at heq
    obtain ⟨_, rfl⟩ := heq
    exact Nat.lt_trans (ih hread) hlt

end KeyLint.Json.Quoted
