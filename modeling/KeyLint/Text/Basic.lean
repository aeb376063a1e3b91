/-!
# Texts

A text is a list of characters, so that searching, cutting and splitting are recursions on the
data. Offsets into a text count the UTF-8 bytes of the characters before them; `Text.bytes` is that
measure, and it is additive over concatenation.
-/

namespace KeyLint

/-- A text is the list of its characters. -/
abbrev Text := List Char

namespace Text

/-! ## Bytes -/

/-- The number of bytes of a text in UTF-8. -/
def bytes : Text → Nat
  | [] => 0
  | c :: cs => c.utf8Size + bytes cs

@[simp] theorem bytes_nil : bytes [] = 0 := rfl

@[simp] theorem bytes_cons (c : Char) (cs : Text) : bytes (c :: cs) = c.utf8Size + bytes cs := rfl

@[simp] theorem bytes_append (s t : Text) : bytes (s ++ t) = bytes s + bytes t := by
  induction s with
  | nil => simp
  | cons c s ih => simp [ih, Nat.add_assoc]

/-- What is left of a text from the byte offset `n` on, if `n` is an offset between two of its
characters or at one of its ends. -/
def dropBytes? : Text → Nat → Option Text
  | t, 0 => some t
  | [], _ + 1 => none
  | c :: cs, n + 1 => if c.utf8Size ≤ n + 1 then dropBytes? cs (n + 1 - c.utf8Size) else none

/-- What stands before the byte offset `n` of a text, if `n` is an offset between two of its
characters or at one of its ends. -/
def takeBytes? : Text → Nat → Option Text
  | _, 0 => some []
  | [], _ + 1 => none
  | c :: cs, n + 1 =>
    if c.utf8Size ≤ n + 1 then (takeBytes? cs (n + 1 - c.utf8Size)).map (c :: ·) else none

/-! ## Searching -/

/-- The word `w` occurs in a text as a contiguous part. -/
def occursIn (w : Text) : Text → Bool
  | [] => w.isEmpty
  | c :: cs => w.isPrefixOf (c :: cs) || occursIn w cs

/-- The text after its beginning `w`, if it begins so. -/
def after? : (w : Text) → Text → Option Text
  | [], t => some t
  | _ :: _, [] => none
  | x :: w, c :: cs => if x = c then after? w cs else none

theorem eq_append_of_after?_eq_some {w t rest : Text} (h : after? w t = some rest) :
    t = w ++ rest := by
  induction w generalizing t with
  | nil => simpa [after?] using h
  | cons x w ih =>
    cases t with
    | nil => simp [after?] at h
    | cons c cs =>
      by_cases hc : x = c
      · simp only [after?, hc, if_true] at h
        simp [hc, ih h]
      · simp [after?, hc] at h

theorem length_lt_of_after?_eq_some {w t rest : Text} (hw : w ≠ [])
    (h : after? w t = some rest) : rest.length < t.length := by
  have : 0 < w.length := List.length_pos_iff.mpr hw
  rw [eq_append_of_after?_eq_some h, List.length_append]
  omega

/-- The text before its ending `w`, if it ends so. -/
def before? (w t : Text) : Option Text :=
  (after? w.reverse t.reverse).map List.reverse

/-- The text before the first occurrence of `w`, and the text after that occurrence. -/
def cut? (w : Text) : Text → Option (Text × Text)
  | [] => if w.isEmpty then some ([], []) else none
  | c :: cs =>
    match after? w (c :: cs) with
    | some rest => some ([], rest)
    | none => (cut? w cs).map fun (before, rest) => (c :: before, rest)

theorem eq_append_of_cut?_eq_some {w t before rest : Text} (h : cut? w t = some (before, rest)) :
    t = before ++ w ++ rest := by
  induction t generalizing before with
  | nil =>
    cases w <;> simp_all [cut?]
  | cons c cs ih =>
    rw [cut?] at h
    split at h
    · next hafter =>
      simp only [Option.some.injEq, Prod.mk.injEq] at h
      obtain ⟨rfl, rfl⟩ := h
      simpa using eq_append_of_after?_eq_some hafter
    · obtain ⟨⟨b, r⟩, hcut, heq⟩ := Option.map_eq_some_iff.mp h
      simp only [Prod.mk.injEq] at heq
      obtain ⟨rfl, rfl⟩ := heq
      simp [ih hcut]

theorem length_le_of_cut?_eq_some {w t before rest : Text} (h : cut? w t = some (before, rest)) :
    rest.length + w.length ≤ t.length := by
  rw [eq_append_of_cut?_eq_some h]
  simp only [List.length_append]
  omega

theorem length_dropWhile_le (p : Char → Bool) (t : Text) : (t.dropWhile p).length ≤ t.length :=
  (List.dropWhile_suffix p).length_le

/-- The pieces of a text between the characters that satisfy `p`; always at least one. -/
def splitWhere (p : Char → Bool) : Text → List Text
  | [] => [[]]
  | c :: cs =>
    if p c then [] :: splitWhere p cs
    else
      match splitWhere p cs with
      | [] => [[c]]
      | piece :: pieces => (c :: piece) :: pieces

/-- The pieces of a text between the occurrences of the character `d`. -/
def splitOn (d : Char) (t : Text) : List Text :=
  splitWhere (· = d) t

/-- The part of a text after the last character that satisfies `p`; all of it if there is none. -/
def afterLast (p : Char → Bool) (t : Text) : Text :=
  (t.reverse.takeWhile fun c => !p c).reverse

/-- Texts with `sep` between neighbours. -/
def join (sep : Text) : List Text → Text
  | [] => []
  | [t] => t
  | t :: ts => t ++ sep ++ join sep ts

/-! ## Small tools -/

/-- The decimal digits of a number. -/
def ofNat (n : Nat) : Text := Nat.toDigits 10 n

/-- The text with blanks in front so that it has at least `width` characters. -/
def alignRight (width : Nat) (t : Text) : Text :=
  List.replicate (width - t.length) ' ' ++ t

/-- `singular` for one thing, `plural` for any other number. -/
def counted (n : Nat) (singular plural : Text) : Text :=
  if n = 1 then singular else plural

/-- The order of texts by their characters' code points, which is also the order of their bytes. -/
def cmp : Text → Text → Ordering
  | [], [] => .eq
  | [], _ :: _ => .lt
  | _ :: _, [] => .gt
  | c :: cs, d :: ds =>
    if c.toNat < d.toNat then .lt
    else if d.toNat < c.toNat then .gt
    else cmp cs ds

end Text

end KeyLint
