import KeyLint.Template.Entity
import KeyLint.Template.Item

/-!
# Regions of text

A region is what stands between two pieces of markup: texts with interpolations, cut into segments
by the syntax of control flow (`@if (open) {`, `} @else {`, `@let x = y;`), which separates texts
and never becomes one.
-/

namespace KeyLint.Template

/-! ## Control flow -/

/-- The words that open a block of control flow. -/
def blockKeywords : List Text :=
  ["if".toList, "else".toList, "for".toList, "switch".toList, "case".toList, "default".toList,
   "defer".toList, "placeholder".toList, "loading".toList, "error".toList, "empty".toList]

/-- What follows the parenthesis that closes the innermost of `depth + 1` open ones, with the others
closed too; nothing if they are not all closed. -/
def afterParens : (depth : Nat) → Text → Text
  | _, [] => []
  | depth, '(' :: cs => afterParens (depth + 1) cs
  | 0, ')' :: cs => cs
  | depth + 1, ')' :: cs => afterParens depth cs
  | depth, _ :: cs => afterParens depth cs

/-- A text without the ASCII blanks at its beginning. -/
def skipBlanks (t : Text) : Text :=
  t.dropWhile Text.isAsciiBlank

/-- What follows the condition of a block, if it has one, and the blanks around it. -/
def afterCondition (t : Text) : Text :=
  match t with
  | '(' :: cs => skipBlanks (afterParens 0 cs)
  | t => t

/-- What follows the header of a block after its keyword and blanks: `else` may go on with `if`. -/
def afterElseIf (keyword t : Text) : Text :=
  if keyword = "else".toList then
    match Text.after? "if".toList t with
    | some rest => skipBlanks rest
    | none => t
  else t

/-- What follows a piece of control flow, given the text after its `@`: a declaration goes up to its
semicolon, the header of a block up to its opening brace. Nothing if it is no control flow. -/
def afterControlFlow? (t : Text) : Option Text :=
  let keyword := t.takeWhile Text.isAsciiLetter
  let rest := t.dropWhile Text.isAsciiLetter
  if keyword = "let".toList then some ((rest.dropWhile (· ≠ ';')).drop 1)
  else if blockKeywords.contains keyword then
    match afterCondition (afterElseIf keyword (skipBlanks rest)) with
    | '\x7b' :: body => some body
    | _ => none
  else none

/-! ## Segments -/

/-- A part of a region that holds no control flow, and the offset where it begins. -/
structure Segment where
  offset : Nat
  text : Text
deriving Repr, DecidableEq, Inhabited

/-- The segments with some text put in front of the first of them, which then begins earlier. -/
def prepend (offset : Nat) (before : Text) : List Segment → List Segment
  | [] => [⟨offset, before⟩]
  | segment :: segments => ⟨offset, before ++ segment.text⟩ :: segments

theorem length_afterParens_le (depth : Nat) (t : Text) :
    (afterParens depth t).length ≤ t.length := by
  fun_induction afterParens depth t <;> simp_all <;> omega

theorem length_skipBlanks_le (t : Text) : (skipBlanks t).length ≤ t.length :=
  Text.length_dropWhile_le _ _

theorem length_afterCondition_le (t : Text) : (afterCondition t).length ≤ t.length := by
  unfold afterCondition
  split
  · next cs =>
    have h1 := length_skipBlanks_le (afterParens 0 cs)
    have h2 := length_afterParens_le 0 cs
    simp only [List.length_cons]
    omega
  · exact Nat.le_refl _

theorem length_afterElseIf_le (keyword t : Text) :
    (afterElseIf keyword t).length ≤ t.length := by
  unfold afterElseIf
  split
  · split
    · next rest hafter =>
      have h1 := length_skipBlanks_le rest
      have h2 := Text.length_lt_of_after?_eq_some (by decide) hafter
      omega
    · exact Nat.le_refl _
  · exact Nat.le_refl _

theorem length_afterControlFlow?_le {t rest : Text} (h : afterControlFlow? t = some rest) :
    rest.length ≤ t.length := by
  have h0 := Text.length_dropWhile_le Text.isAsciiLetter t
  simp only [afterControlFlow?] at h
  split at h
  · simp only [Option.some.injEq] at h
    subst h
    have h1 := Text.length_dropWhile_le (· ≠ ';') (t.dropWhile Text.isAsciiLetter)
    simp only [List.length_drop]
    omega
  · split at h
    · split at h
      · next body hbody =>
        simp only [Option.some.injEq] at h
        subst h
        have h1 := length_skipBlanks_le (t.dropWhile Text.isAsciiLetter)
        have h2 := length_afterElseIf_le (t.takeWhile Text.isAsciiLetter)
          (skipBlanks (t.dropWhile Text.isAsciiLetter))
        have h3 := length_afterCondition_le (afterElseIf (t.takeWhile Text.isAsciiLetter)
          (skipBlanks (t.dropWhile Text.isAsciiLetter)))
        rw [hbody] at h3
        simp only [List.length_cons] at h3
        omega
      · simp at h
    · simp at h

/-- The segments of a region that begins at an offset. An interpolation is never cut; an `@` that
opens control flow and a closing brace end a segment. -/
def segments (offset : Nat) (t : Text) : List Segment :=
  match _ht : t with
  | [] => [⟨offset, []⟩]
  | c :: cs =>
    if c = '\x7b' && cs.head? = some '\x7b' then
      match _h : Text.cut? "\x7d\x7d".toList (cs.drop 1) with
      | some (body, rest) =>
        let interpolation := "\x7b\x7b".toList ++ body ++ "\x7d\x7d".toList
        prepend offset interpolation (segments (offset + Text.bytes interpolation) rest)
      | none => [⟨offset, c :: cs⟩]
    else if c = '@' then
      match _h : afterControlFlow? cs with
      | some rest =>
        ⟨offset, []⟩ :: segments (offset + (Text.bytes (c :: cs) - Text.bytes rest)) rest
      | none => prepend offset [c] (segments (offset + c.utf8Size) cs)
    else if c = '\x7d' then ⟨offset, []⟩ :: segments (offset + c.utf8Size) cs
    else prepend offset [c] (segments (offset + c.utf8Size) cs)
termination_by t.length
decreasing_by
  · have := Text.length_le_of_cut?_eq_some _h
    simp only [List.length_cons, List.length_drop] at *
    omega
  · have := length_afterControlFlow?_le _h
    simp only [List.length_cons]
    omega
  all_goals simp

/-- The item of a segment: its text without the blanks around it, if anything is left of it. -/
def Segment.item? (segment : Segment) : Option Item :=
  let text := Text.trim segment.text
  if text.isEmpty then none
  else
    let start := segment.offset + Text.bytes (segment.text.takeWhile Text.isBlank)
    let span : Span := ⟨start, start + Text.bytes text⟩
    if Text.occursIn "\x7b\x7b".toList text then some (.boundText text span)
    else some (.text (decodeEntities text) span)

/-- The items of a region that begins at an offset. -/
def regionItems (offset : Nat) (region : Text) : List Item :=
  (segments offset region).filterMap Segment.item?

end KeyLint.Template
