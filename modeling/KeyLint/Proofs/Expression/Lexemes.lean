import Mathlib.Data.List.Basic
import KeyLint.Expression.Operand

/-!
# The lexemes of an expression

Any text can be read from left to right as strings, double bars and single characters. A string ends
at the next quote of its kind that no backslash takes. The scanner of an expression goes through the
same lexemes, one after the other.
-/

namespace KeyLint.Expression

/-! ## Lexemes -/

/-- A piece of an expression. A string without its last quote goes on to the end of the text. -/
inductive Lexeme where
  | string (quote : Char) (content : Text)
  | unclosed (quote : Char) (content : Text)
  | or
  | char (c : Char)
deriving Repr, DecidableEq

def Lexeme.text : Lexeme → Text
  | .string quote content => quote :: (content ++ [quote])
  | .unclosed quote content => quote :: content
  | .or => ['|', '|']
  | .char c => [c]

def textOf (ls : List Lexeme) : Text :=
  ls.flatMap Lexeme.text

@[simp] theorem textOf_nil : textOf [] = [] := rfl

@[simp] theorem textOf_cons (l : Lexeme) (ls : List Lexeme) :
    textOf (l :: ls) = l.text ++ textOf ls := rfl

/-- What a string holds that a text goes on with after the string's first quote, and what follows
its last quote. -/
def cutString? (quote : Char) : Text → Option (Text × Text)
  | [] => none
  | '\\' :: c :: cs =>
    (cutString? quote cs).map fun (content, rest) => ('\\' :: c :: content, rest)
  | c :: cs =>
    if c = quote then some ([], cs)
    else (cutString? quote cs).map fun (content, rest) => (c :: content, rest)

theorem eq_append_of_cutString? {quote : Char} {t content rest : Text}
    (h : cutString? quote t = some (content, rest)) : t = content ++ quote :: rest := by
  fun_induction cutString? quote t generalizing content with
  | case1 => cases h
  | case2 c cs ih =>
      obtain ⟨⟨inner, tail⟩, hcut, heq⟩ := Option.map_eq_some_iff.mp h
      cases heq
      rw [ih hcut]
      rfl
  | case3 cs =>
      cases h
      rfl
  | case4 c cs _ _ ih =>
      obtain ⟨⟨inner, tail⟩, hcut, heq⟩ := Option.map_eq_some_iff.mp h
      cases heq
      rw [ih hcut]
      rfl

def lexemes (t : Text) : List Lexeme :=
  match t with
  | [] => []
  | '|' :: '|' :: cs => .or :: lexemes cs
  | c :: cs =>
    if opensString c then
      match _h : cutString? c cs with
      | some (content, rest) => .string c content :: lexemes rest
      | none => [.unclosed c cs]
    else .char c :: lexemes cs
termination_by t.length
decreasing_by
  · simp only [List.length_cons]
    omega
  · rw [eq_append_of_cutString? _h]
    simp only [List.length_cons, List.length_append]
    omega
  · simp

theorem textOf_lexemes (t : Text) : textOf (lexemes t) = t := by
  fun_induction lexemes t with
  | case1 => rfl
  | case2 cs ih => rw [textOf_cons, ih]; rfl
  | case3 c cs _ _ content rest hcut ih =>
      rw [textOf_cons, ih, eq_append_of_cutString? hcut]
      simp [Lexeme.text]
  | case4 c cs => simp [Lexeme.text]
  | case5 c cs _ _ ih => rw [textOf_cons, ih]; rfl

/-! ## The walk of the scanner -/

/-- The scan after a lexeme at a place, with the text that follows the lexeme. -/
def Scan.after (scan : Scan) (place : Nat) (rest : Text) : Lexeme → Scan
  | .char c =>
    if opensGroup c then scan.opened (place + 1)
    else if closesGroup c then scan.closed place
    else if c = '|' then scan.piped place (pipeName rest = translationPipe)
    else scan
  | _ => scan

def scanLexemes (scan : Scan) (place : Nat) : List Lexeme → Scan
  | [] => scan.finished place
  | l :: ls => scanLexemes (scan.after place (textOf ls) l) (place + l.text.length) ls

theorem scanString_eq (quote : Char) (scan : Scan) (place : Nat) (t : Text) :
    scanString quote scan place t
      = match cutString? quote t with
        | some (content, rest) => scanCode scan (place + content.length + 1) rest
        | none => scan.finished (place + t.length) := by
  fun_induction cutString? quote t generalizing place with
  | case1 => rfl
  | case2 c cs ih =>
      rw [scanString, ih]
      cases cutString? quote cs with
      | none => simp only [Option.map_none, List.length_cons, Nat.add_assoc, Nat.add_comm 2]
      | some found =>
          simp only [Option.map_some, List.length_cons]
          congr 1
          omega
  | case3 cs hslash =>
      rw [scanString]
      · simp
      · exact hslash
  | case4 c cs hslash hc ih =>
      rw [scanString, if_neg hc, ih]
      · cases cutString? quote cs with
        | none => simp only [Option.map_none, List.length_cons, Nat.add_assoc, Nat.add_comm 1]
        | some found =>
            simp only [Option.map_some, List.length_cons]
            congr 1
            omega
      · exact hslash

/-- The scanner goes through an expression lexeme by lexeme. -/
theorem scanCode_eq_scanLexemes (scan : Scan) (place : Nat) (t : Text) :
    scanCode scan place t = scanLexemes scan place (lexemes t) := by
  fun_induction lexemes t generalizing scan place with
  | case1 => rfl
  | case2 cs ih => rw [scanCode, ih]; rfl
  | case3 c cs hor hc content rest hcut ih =>
      rw [scanCode, if_pos hc, scanString_eq, hcut]
      · simp only
        rw [ih, scanLexemes]
        congr 1
        simp only [Lexeme.text, List.length_cons, List.length_append, List.length_nil]
        omega
      · exact hor
  | case4 c cs hor hc hcut =>
      rw [scanCode, if_pos hc, scanString_eq, hcut]
      · simp only [scanLexemes, Scan.after, Lexeme.text, List.length_cons, Nat.add_assoc,
          Nat.add_comm 1]
      · exact hor
  | case5 c cs hor hc ih =>
      rw [scanCode, if_neg hc, scanLexemes, Scan.after, textOf_lexemes]
      · simp only [ih]
        split_ifs <;> rfl
      · exact hor

end KeyLint.Expression
