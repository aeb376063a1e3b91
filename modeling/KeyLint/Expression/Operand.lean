import KeyLint.Expression.Mention
import KeyLint.Expression.Quoted

/-!
# Operands of the translation pipe

In `(done ? 'a.done' : 'a.pending') | transloco` the keys are in what is piped: the operand, which
stands before the first bar of its bracket group. What follows that bar are names and arguments of
pipes, and a quoted token there is no key. Groups nest, so an expression is scanned once with a
stack of open groups, and each group leaves behind its operand and its arguments.
-/

namespace KeyLint.Expression

/-- The characters of an expression from one place up to, and without, another. -/
structure Stretch where
  start : Nat
  stop : Nat
deriving Repr, DecidableEq, Inhabited

/-- A place is in a stretch. -/
def Stretch.has (s : Stretch) (place : Nat) : Bool :=
  s.start ≤ place && place < s.stop

/-- A bracket group, or the whole expression, while it is open. -/
structure Group where
  /-- Where its content begins. -/
  start : Nat
  /-- Where its first bar stands, if it has had one. -/
  bar : Option Nat := none
  /-- Some bar of it leads into the translation pipe. -/
  translated : Bool := false
deriving Repr, DecidableEq, Inhabited

/-- What a scan has found: the open groups, from the innermost on, and the operands and arguments of
the closed ones in the order of their closing. -/
structure Scan where
  inner : Group := { start := 0 }
  outer : List Group := []
  operands : List Stretch := []
  arguments : List Stretch := []
deriving Repr, DecidableEq, Inhabited

/-- The arguments of a group that closes at a place. -/
def Group.arguments (group : Group) (stop : Nat) : List Stretch :=
  match group.bar with
  | some bar => [⟨bar, stop⟩]
  | none => []

/-- The operand of a group, if it is translated. -/
def Group.operand (group : Group) : List Stretch :=
  match group.bar with
  | some bar => if group.translated then [⟨group.start, bar⟩] else []
  | none => []

namespace Scan

/-- Opens a group whose content begins at a place. -/
def opened (scan : Scan) (start : Nat) : Scan :=
  { scan with inner := { start }, outer := scan.inner :: scan.outer }

/-- Closes the innermost group at a place. The whole expression is closed by no bracket. -/
def closed (scan : Scan) (stop : Nat) : Scan :=
  match scan.outer with
  | [] => scan
  | parent :: outer =>
    { inner := parent
      outer := outer
      operands := scan.operands ++ scan.inner.operand
      arguments := scan.arguments ++ scan.inner.arguments stop }

/-- Notes a bar in the innermost group at a place, and whether the translation pipe follows it. -/
def piped (scan : Scan) (place : Nat) (translated : Bool) : Scan :=
  let inner := scan.inner
  { scan with
    inner :=
      { inner with
        bar := inner.bar <|> some place
        translated := inner.translated || translated } }

/-- Closes all groups at the end of the expression, the innermost first. -/
def finished (scan : Scan) (stop : Nat) : Scan :=
  let groups := scan.inner :: scan.outer
  { scan with
    operands := scan.operands ++ groups.flatMap Group.operand
    arguments := scan.arguments ++ groups.flatMap fun group => group.arguments stop }

end Scan

/-- The name of the pipe that a text goes on with after a bar. -/
def pipeName (t : Text) : Text :=
  (Text.trimStart t).takeWhile fun c => Text.isAlnum c || c = '_' || c = '$'

/-- A quote that opens a string, template strings included. -/
def opensString (c : Char) : Bool :=
  isQuote c || c = '\x60'

/-- A bracket that opens a group. -/
def opensGroup (c : Char) : Bool :=
  c = '(' || c = '[' || c = '\x7b'

/-- A bracket that closes a group; it need not be of the kind that opened it. -/
def closesGroup (c : Char) : Bool :=
  c = ')' || c = ']' || c = '\x7d'

mutual

/-- Scans an expression from a place outside of strings. Two bars are an operator of their own. -/
def scanCode (scan : Scan) (place : Nat) : Text → Scan
  | [] => scan.finished place
  | '|' :: '|' :: cs => scanCode scan (place + 2) cs
  | c :: cs =>
    if opensString c then scanString c scan (place + 1) cs
    else if opensGroup c then scanCode (scan.opened (place + 1)) (place + 1) cs
    else if closesGroup c then scanCode (scan.closed place) (place + 1) cs
    else if c = '|' then
      scanCode (scan.piped place (pipeName cs = translationPipe)) (place + 1) cs
    else scanCode scan (place + 1) cs

/-- Scans an expression from a place inside a string with the given quote. -/
def scanString (quote : Char) (scan : Scan) (place : Nat) : Text → Scan
  | [] => scan.finished place
  | '\\' :: _ :: cs => scanString quote scan (place + 2) cs
  | c :: cs =>
    if c = quote then scanCode scan (place + 1) cs else scanString quote scan (place + 1) cs

end

/-- Adds a quoted key to keys in the order of their places; of two at one place the first stays. -/
def insertKey (entry : QuotedKey) : List QuotedKey → List QuotedKey
  | [] => [entry]
  | other :: more =>
    if entry.place < other.place then entry :: other :: more
    else if entry.place = other.place then other :: more
    else other :: insertKey entry more

/-- The keys in the operands of the translation pipe, in the order of their places. -/
def pipedKeys (unit : Text) : List Text :=
  let scan := scanCode {} 0 unit
  let found := scan.operands.flatMap fun operand =>
    quotedKeys operand.start ((unit.take operand.stop).drop operand.start)
  let kept := found.filter fun entry => !scan.arguments.any fun stretch => stretch.has entry.place
  (kept.foldl (fun keys entry => insertKey entry keys) []).map QuotedKey.key

end KeyLint.Expression
