import Mathlib.Order.Monotone.Basic
import KeyLint.Proofs.Cursor.Templates
import KeyLint.Proofs.Expression.Scanning
import KeyLint.Proofs.Expression.Survey

/-!
# Expressions by offsets

The scan for the operands of the translation pipe goes over bytes, and what it notes are offsets. The
offsets are those of the characters' places, in the same order, so that the same keys are found.
-/

namespace KeyLint.Expression

/-! ## Places moved -/

/-- A stretch with its places moved. -/
def Stretch.map (f : Nat → Nat) (s : Stretch) : Stretch :=
  ⟨f s.start, f s.stop⟩

/-- A group with its places moved. -/
def Group.map (f : Nat → Nat) (g : Group) : Group where
  start := f g.start
  bar := g.bar.map f
  translated := g.translated

/-- A scan with its places moved. -/
def Scan.map (f : Nat → Nat) (scan : Scan) : Scan where
  inner := scan.inner.map f
  outer := scan.outer.map (Group.map f)
  operands := scan.operands.map (Stretch.map f)
  arguments := scan.arguments.map (Stretch.map f)

/-- A quoted key with its place moved. -/
def QuotedKey.map (f : Nat → Nat) (k : QuotedKey) : QuotedKey :=
  ⟨f k.place, k.key⟩

theorem Group.operand_map (f : Nat → Nat) (g : Group) :
    (g.map f).operand = g.operand.map (Stretch.map f) := by
  obtain ⟨start, bar, translated⟩ := g
  cases bar <;> cases translated <;> rfl

theorem Group.arguments_map (f : Nat → Nat) (g : Group) (stop : Nat) :
    (g.map f).arguments (f stop) = (g.arguments stop).map (Stretch.map f) := by
  obtain ⟨start, bar, translated⟩ := g
  cases bar <;> rfl

namespace Scan

variable (f : Nat → Nat) (scan : Scan)

theorem map_opened (start : Nat) : (scan.opened start).map f = (scan.map f).opened (f start) :=
  rfl

theorem map_closed (stop : Nat) : (scan.closed stop).map f = (scan.map f).closed (f stop) := by
  obtain ⟨inner, outer, operands, arguments⟩ := scan
  cases outer with
  | nil => rfl
  | cons parent outer =>
      simp [Scan.map, closed, Group.operand_map, Group.arguments_map]

theorem map_piped (place : Nat) (translated : Bool) :
    (scan.piped place translated).map f = (scan.map f).piped (f place) translated := by
  obtain ⟨⟨start, bar, _⟩, outer, operands, arguments⟩ := scan
  cases bar <;> rfl

theorem map_finished (stop : Nat) : (scan.finished stop).map f = (scan.map f).finished (f stop) := by
  simp [Scan.map, finished, List.map_flatMap, List.flatMap_map, Group.operand_map,
    Group.arguments_map]

end Scan

section Order

variable {f : Nat → Nat} (hf : StrictMono f)

include hf

theorem Stretch.has_map (s : Stretch) (place : Nat) : (s.map f).has (f place) = s.has place := by
  simp [Stretch.has, Stretch.map, hf.le_iff_le, hf.lt_iff_lt]

theorem insertKey_map (entry : QuotedKey) (keys : List QuotedKey) :
    insertKey (entry.map f) (keys.map (QuotedKey.map f))
      = (insertKey entry keys).map (QuotedKey.map f) := by
  induction keys with
  | nil => rfl
  | cons other more ih =>
      simp only [List.map_cons, insertKey, QuotedKey.map, hf.lt_iff_lt, hf.injective.eq_iff]
      split
      · rfl
      · split
        · rfl
        · exact congrArg (QuotedKey.map f other :: ·) ih

theorem foldl_insertKey_map (entries keys : List QuotedKey) :
    (entries.map (QuotedKey.map f)).foldl (fun keys entry => insertKey entry keys)
        (keys.map (QuotedKey.map f))
      = (entries.foldl (fun keys entry => insertKey entry keys) keys).map (QuotedKey.map f) := by
  induction entries generalizing keys with
  | nil => rfl
  | cons entry entries ih => rw [List.map_cons, List.foldl_cons, List.foldl_cons, insertKey_map hf, ih]

end Order

theorem quotedKeys_add (offset place : Nat) (t : Text) :
    quotedKeys (offset + place) t = (quotedKeys place t).map (QuotedKey.map (offset + ·)) := by
  fun_induction quotedKeys place t with
  | case1 => simp [quotedKeys]
  | case2 place c cs hc key rest hkey ih =>
      rw [quotedKeys_of_key _ hc hkey, Nat.add_assoc, ih]
      rfl
  | case3 place c cs hc hnone ih => rw [quotedKeys_of_no_key _ fun _ => hnone, Nat.add_assoc, ih]
  | case4 place c cs hc ih =>
      rw [quotedKeys_of_no_key _ fun hquote => absurd hquote hc, Nat.add_assoc, ih]

end KeyLint.Expression

namespace KeyLint.Cursor

open Expression (Scan Stretch QuotedKey)

/-! ## Interpolations -/

/-- What is left of the text, and the contents found. -/
def unitsTurn : Text × List Text → Checked ((Text × List Text) ⊕ List Text)
  | (rest, units) =>
    match find? "\x7b\x7b".toList rest with
    | none => pure (.inr units)
    | some opening => do
      let body ← textBetween rest (opening + 2) (Text.bytes rest)
      match find? "\x7d\x7d".toList body with
      | none => pure (.inr units)
      | some closing =>
        let unit ← textBetween body 0 closing
        let rest ← textBetween body (closing + 2) (Text.bytes body)
        pure (.inl (rest, units ++ [unit]))

/-- The contents of the interpolations of a text. -/
def interpolations (source : Text) : Checked (List Text) :=
  iterate (fun state => state.1.length) unitsTurn (source, [])

/-- The text after the first occurrence of a word. -/
theorem textBetween_of_cut? {w t before rest : Text} (h : Text.cut? w t = some (before, rest)) :
    textBetween t (Text.bytes before + Text.bytes w) (Text.bytes t) = .ok rest := by
  have hslice := textBetween_end (before ++ w) rest
  rwa [← Text.eq_append_of_cut?_eq_some h, Text.bytes_append] at hslice

theorem iterate_unitsTurn (rest : Text) (units : List Text) :
    iterate (fun state => state.1.length) unitsTurn (rest, units)
      = .ok (units ++ Expression.interpolations rest) := by
  fun_induction Expression.interpolations rest generalizing units with
  | case1 rest hnone =>
      refine iterate_done ?_
      simp only [unitsTurn, find?, hnone, Option.map_none, List.append_nil]
      rfl
  | case2 rest before body hopen hnone =>
      have hbody : textBetween rest (Text.bytes before + 2) (Text.bytes rest) = .ok body :=
        textBetween_of_cut? hopen
      refine iterate_done ?_
      simp only [unitsTurn, find?, hopen, hnone, hbody, Option.map_some, Option.map_none, ok_bind,
        List.append_nil]
      rfl
  | case3 rest before body hopen unit after hclose ih =>
      have hbody : textBetween rest (Text.bytes before + 2) (Text.bytes rest) = .ok body :=
        textBetween_of_cut? hopen
      have hafter : textBetween body (Text.bytes unit + 2) (Text.bytes body) = .ok after :=
        textBetween_of_cut? hclose
      have hunit : textBetween body 0 (Text.bytes unit) = .ok unit := by
        rw [Text.eq_append_of_cut?_eq_some hclose, List.append_assoc]
        exact textBetween_start unit _
      have hturn : unitsTurn (rest, units) = .ok (.inl (after, units ++ [unit])) := by
        simp only [unitsTurn, find?, hopen, hclose, hbody, hafter, hunit, Option.map_some, ok_bind]
        rfl
      have hshorter : after.length < rest.length := by
        rw [Text.eq_append_of_cut?_eq_some hopen, Text.eq_append_of_cut?_eq_some hclose]
        simp only [List.length_append]
        have hbraces : "\x7b\x7b".toList.length = 2 := rfl
        omega
      rw [iterate_next hturn hshorter, ih, List.append_assoc, List.singleton_append]

theorem interpolations_eq (source : Text) :
    interpolations source = .ok (Expression.interpolations source) :=
  iterate_unitsTurn source []

/-! ## The scan -/

/-- The name of the pipe that a text goes on with after a bar. -/
def pipeName (t : Text) : Checked Text :=
  let rest := Text.trimStart t
  let stop := (rest.findIdx? fun c => !(Text.isAlnum c || c = '_' || c = '$')).map
    fun k => Text.bytes (rest.take k)
  textBetween rest 0 (stop.getD (Text.bytes rest))

/-- The offset, what has been found, and the quote of the string that the offset is in. -/
abbrev ScanState := Nat × Scan × Option Char

/-- A turn inside a string. A backslash takes the byte after it. -/
def stringTurn (scan : Scan) (quote : Char) (i : Nat) (b : Char) : ScanState :=
  if b = '\\' then (i + 2, scan, some quote)
  else if b = quote then (i + 1, scan, none)
  else (i + 1, scan, some quote)

/-- A turn outside of strings. -/
def codeTurn (unit : Text) (scan : Scan) (i : Nat) (b : Char) : Checked ScanState :=
  if Expression.opensString b then pure (i + 1, scan, some b)
  else if Expression.opensGroup b then pure (i + 1, scan.opened (i + 1), none)
  else if Expression.closesGroup b then pure (i + 1, scan.closed i, none)
  else if b = '|' then
    if (utf8 unit)[i + 1]? = some '|' then pure (i + 2, scan, none)
    else do
      let rest ← textBetween unit (i + 1) (Text.bytes unit)
      let name ← pipeName rest
      pure (i + 1, scan.piped i (name = Expression.translationPipe), none)
  else pure (i + 1, scan, none)

def scanTurn (unit : Text) : ScanState → Checked (ScanState ⊕ Scan)
  | (i, scan, quote) =>
    if i < (utf8 unit).length then do
      let b ← byteAt (utf8 unit) i
      match quote with
      | some quote => pure (.inl (stringTurn scan quote i b))
      | none =>
        let next ← codeTurn unit scan i b
        pure (.inl next)
    else pure (.inr (scan.finished (Text.bytes unit)))

/-- What a scan of an expression finds. -/
def scanFrom (unit : Text) (state : ScanState) : Checked Scan :=
  iterate (fun state => (utf8 unit).length - state.1) (scanTurn unit) state

/-- The first character outside of a class is found where the characters of the class end. -/
theorem getD_findIdx?_not (p : Char → Bool) (t : Text) :
    ((t.findIdx? fun c => !p c).map fun k => Text.bytes (t.take k)).getD (Text.bytes t)
      = Text.bytes (t.takeWhile p) := by
  induction t with
  | nil => rfl
  | cons c t ih =>
      rw [List.findIdx?_cons]
      by_cases hc : p c = true
      · rw [List.takeWhile_cons_of_pos hc, Text.bytes_cons c (t.takeWhile p), ← ih]
        cases t.findIdx? fun c => !p c <;> simp [hc]
      · rw [List.takeWhile_cons_of_neg hc]
        simp [hc]

theorem pipeName_eq (t : Text) : pipeName t = .ok (Expression.pipeName t) := by
  rw [pipeName, Expression.pipeName, getD_findIdx?_not]
  have hslice := textBetween_start
    ((Text.trimStart t).takeWhile fun c => Text.isAlnum c || c = '_' || c = '$')
    ((Text.trimStart t).dropWhile fun c => Text.isAlnum c || c = '_' || c = '$')
  rwa [List.takeWhile_append_dropWhile] at hslice

/-! ### Offsets of places -/

/-- The offset of a place. Places beyond the end go on as if every character there had one byte. -/
def offsetAt (unit : Text) (place : Nat) : Nat :=
  Text.bytes (unit.take place) + (place - unit.length)

theorem offsetAt_of_le {unit : Text} {place : Nat} (h : place ≤ unit.length) :
    offsetAt unit place = Text.bytes (unit.take place) := by
  rw [offsetAt, Nat.sub_eq_zero_of_le h, Nat.add_zero]

theorem offsetAt_length (s t : Text) : offsetAt (s ++ t) s.length = Text.bytes s := by
  rw [offsetAt_of_le (by simp), List.take_left]

theorem strictMono_offsetAt (unit : Text) : StrictMono (offsetAt unit) := by
  refine strictMono_nat_of_lt_succ fun place => ?_
  by_cases hlt : place < unit.length
  · have hpos := (unit[place]).utf8Size_pos
    rw [offsetAt_of_le hlt, offsetAt_of_le (Nat.le_of_lt hlt), List.take_succ_eq_append_getElem hlt,
      Text.bytes_append, Text.bytes_cons]
    omega
  · have hle := Nat.le_of_not_lt hlt
    rw [offsetAt, offsetAt, List.take_of_length_le hle, List.take_of_length_le (Nat.le_succ_of_le hle)]
    omega

/-! ### Turns -/

section Turns

variable {unit : Text} {scan : Scan}

theorem scanFrom_next {state next : ScanState} (h : scanTurn unit state = .ok (.inl next))
    (hless : (utf8 unit).length - next.1 < (utf8 unit).length - state.1) :
    scanFrom unit state = scanFrom unit next :=
  iterate_next h hless

theorem scanFrom_end {i : Nat} (h : (utf8 unit).length ≤ i) (quote : Option Char) :
    scanFrom unit (i, scan, quote) = .ok (scan.finished (Text.bytes unit)) := by
  refine iterate_done ?_
  rw [scanTurn, if_neg (Nat.not_lt.mpr h)]
  rfl

theorem scanTurn_string {i : Nat} {b quote : Char} (hget : (utf8 unit)[i]? = some b) :
    scanTurn unit (i, scan, some quote) = .ok (.inl (stringTurn scan quote i b)) := by
  have hlt : i < (utf8 unit).length := (List.getElem?_eq_some_iff.mp hget).1
  rw [scanTurn, if_pos hlt, byteAt, hget]
  rfl

theorem scanTurn_code {i : Nat} {b : Char} {next : ScanState} (hget : (utf8 unit)[i]? = some b)
    (h : codeTurn unit scan i b = .ok next) : scanTurn unit (i, scan, none) = .ok (.inl next) := by
  have hlt : i < (utf8 unit).length := (List.getElem?_eq_some_iff.mp hget).1
  rw [scanTurn, if_pos hlt, byteAt, hget, ok_bind]
  dsimp only
  rw [h]
  rfl

/-- A turn at a character of ASCII outside of strings. -/
theorem scanFrom_code {s : Text} {c : Char} {t : Text} (hunit : unit = s ++ c :: t) (hc : IsAscii c)
    {w : Text} {scan' : Scan} {quote : Option Char}
    (h : codeTurn unit scan (Text.bytes s) c = .ok (Text.bytes (s ++ c :: w), scan', quote)) :
    scanFrom unit (Text.bytes s, scan, none)
      = scanFrom unit (Text.bytes (s ++ c :: w), scan', quote) := by
  subst hunit
  have hget : (utf8 (s ++ c :: t))[Text.bytes s]? = some c := by
    rw [getElem?_lead, lead_of_isAscii hc]
  exact scanFrom_next (scanTurn_code hget h) (left_lt s c t w)

end Turns

theorem isAscii_of_not_isPlain {c : Char} (h : Expression.isPlain c = false) : IsAscii c := by
  simp only [Expression.isPlain, Expression.opensString, Expression.isQuote, Expression.opensGroup,
    Expression.closesGroup, Bool.and_eq_false_iff, Bool.not_eq_false', Bool.or_eq_true,
    decide_eq_true_eq, decide_eq_false_iff_not, not_not] at h
  rcases h with ((((rfl | rfl) | rfl) | ((rfl | rfl) | rfl)) | ((rfl | rfl) | rfl)) | rfl <;> decide

theorem isByteClass_isPlain : IsByteClass Expression.isPlain := by
  have hplain : ∀ c, ¬ IsAscii c → Expression.isPlain c = true := by
    intro c hc
    by_contra hnot
    exact hc (isAscii_of_not_isPlain (Bool.eq_false_iff.mpr hnot))
  intro c d hc hd
  rw [hplain c hc, hplain d hd]

section Characters

variable {unit s t : Text} {c : Char} {scan : Scan}

/-- A character that has no meaning of its own is passed. -/
theorem scanFrom_plain (hunit : unit = s ++ c :: t) (hc : Expression.isPlain c = true) :
    scanFrom unit (Text.bytes s, scan, none) = scanFrom unit (Text.bytes (s ++ [c]), scan, none) := by
  subst hunit
  refine iterate_char (fun i => (i, scan, none)) (fun _ => rfl) s c (by simp) fun k hk => ?_
  obtain ⟨b, hget, hb⟩ := isByteClass_isPlain.exists_getElem? s c t hk
  obtain ⟨hstring, hopen, hclose, hbar⟩ := Expression.isPlain_iff.mp (hb.trans hc)
  refine scanTurn_code hget ?_
  rw [codeTurn, if_neg (by simp [hstring]), if_neg (by simp [hopen]), if_neg (by simp [hclose]),
    if_neg hbar]
  rfl

/-- A character of a string is passed. -/
theorem scanFrom_content (hunit : unit = s ++ c :: t) {quote : Char} (hquote : IsAscii quote)
    (hslash : c ≠ '\\') (hc : c ≠ quote) :
    scanFrom unit (Text.bytes s, scan, some quote)
      = scanFrom unit (Text.bytes (s ++ [c]), scan, some quote) := by
  subst hunit
  have hclass : IsByteClass fun b => ['\\', quote].contains b :=
    IsByteClass.of_list _ (by simpa [IsAsciiText] using ⟨by decide, hquote⟩)
  refine iterate_char (fun i => (i, scan, some quote)) (fun _ => rfl) s c (by simp) fun k hk => ?_
  obtain ⟨b, hget, hb⟩ := hclass.exists_getElem? s c t hk
  obtain ⟨hbslash, hbquote⟩ : b ≠ '\\' ∧ b ≠ quote := by simpa [hslash, hc] using hb
  rw [scanTurn_string hget, stringTurn, if_neg hbslash, if_neg hbquote]

theorem scanFrom_closing {quote : Char} (hunit : unit = s ++ quote :: t) (hquote : IsAscii quote)
    (hslash : quote ≠ '\\') :
    scanFrom unit (Text.bytes s, scan, some quote)
      = scanFrom unit (Text.bytes (s ++ [quote]), scan, none) := by
  subst hunit
  have hget : (utf8 (s ++ quote :: t))[Text.bytes s]? = some quote := by
    rw [getElem?_lead, lead_of_isAscii hquote]
  refine scanFrom_next ?_ (left_lt s quote t [])
  rw [scanTurn_string hget, stringTurn, if_neg hslash, if_pos rfl, bytes_append_singleton s hquote]

/-- A backslash takes the first byte of the character after it, and the others mean nothing. -/
theorem scanFrom_escaped (hunit : unit = s ++ '\\' :: c :: t) {quote : Char}
    (hquote : IsAscii quote) :
    scanFrom unit (Text.bytes s, scan, some quote)
      = scanFrom unit (Text.bytes (s ++ ['\\', c]), scan, some quote) := by
  subst hunit
  have hget : (utf8 (s ++ '\\' :: c :: t))[Text.bytes s]? = some '\\' := by
    rw [getElem?_lead, lead_of_isAscii (by decide)]
  have hnext : scanTurn (s ++ '\\' :: c :: t) (Text.bytes s, scan, some quote)
      = .ok (.inl (Text.bytes (s ++ ['\\']) + 1, scan, some quote)) := by
    rw [scanTurn_string hget, stringTurn, if_pos rfl, bytes_append_singleton s (by decide)]
  have hless : (utf8 (s ++ '\\' :: c :: t)).length - (Text.bytes (s ++ ['\\']) + 1)
      < (utf8 (s ++ '\\' :: c :: t)).length - Text.bytes s := by
    have hlt := bytes_lt_length_utf8 s '\\' (c :: t)
    rw [bytes_append_singleton s (by decide)]
    omega
  rw [List.append_cons] at hnext hless ⊢
  rw [scanFrom_next hnext hless, List.append_cons s '\\' [c]]
  refine iterate_char_from (fun i => (i, scan, some quote)) (fun _ => rfl) (s ++ ['\\']) c (by simp)
    (show 1 ≤ c.utf8Size from c.utf8Size_pos) fun k hfirst hk => ?_
  have hc : ¬ IsAscii c := by
    intro hascii
    rw [utf8Size_of_isAscii hascii] at hk
    omega
  obtain ⟨b, hget, hb⟩ := exists_getElem?_of_not_isAscii (s ++ ['\\']) hc t hk
  have hslash : b ≠ '\\' := by
    rintro rfl
    exact hb (by decide)
  have hother : b ≠ quote := by
    rintro rfl
    exact hb hquote
  rw [scanTurn_string hget, stringTurn, if_neg hslash, if_neg hother]

end Characters

/-! ### The whole expression -/

/-- The scan of the rest `t` of an expression finds what the scan of its characters finds, at the
offsets of their places. -/
structure ScansRest (unit s t : Text) : Prop where
  code : ∀ scan : Scan, scanFrom unit (Text.bytes s, scan.map (offsetAt unit), none)
    = .ok ((Expression.scanCode scan s.length t).map (offsetAt unit))
  string : ∀ scan : Scan, ∀ quote, IsAscii quote → quote ≠ '\\' →
    scanFrom unit (Text.bytes s, scan.map (offsetAt unit), some quote)
      = .ok ((Expression.scanString quote scan s.length t).map (offsetAt unit))

namespace ScansRest

variable {unit s cs : Text}

theorem nil (s : Text) : ScansRest s s [] := by
  have hstop : ∀ (scan : Scan) (quote : Option Char),
      scanFrom s (Text.bytes s, scan.map (offsetAt s), quote)
        = .ok ((scan.finished s.length).map (offsetAt s)) := by
    intro scan quote
    have hplace := offsetAt_length s []
    rw [List.append_nil] at hplace
    rw [scanFrom_end (Nat.le_of_eq (length_utf8 s)), Scan.map_finished, hplace]
  constructor
  · exact fun scan => hstop scan none
  · exact fun scan quote _ _ => hstop scan (some quote)

/-- A character outside of strings. -/
theorem code_cons {c : Char} (hunit : unit = s ++ c :: cs) (hbar : c ≠ '|')
    (hrest : ScansRest unit (s ++ [c]) cs) (scan : Scan) :
    scanFrom unit (Text.bytes s, scan.map (offsetAt unit), none)
      = .ok ((Expression.scanCode scan s.length (c :: cs)).map (offsetAt unit)) := by
  have hhere : offsetAt unit s.length = Text.bytes s := by rw [hunit, offsetAt_length]
  have hplace : offsetAt unit (s.length + 1) = Text.bytes (s ++ [c]) := by
    have hnext := offsetAt_length (s ++ [c]) cs
    rwa [List.append_assoc, List.singleton_append, ← hunit, List.length_append] at hnext
  have hlength : (s ++ [c]).length = s.length + 1 := by simp
  rw [Expression.scanCode_cons hbar, ← hlength]
  by_cases hplain : Expression.isPlain c = true
  · obtain ⟨hstring, hopen, hclose, _⟩ := Expression.isPlain_iff.mp hplain
    rw [scanFrom_plain hunit hplain, hrest.code, if_neg (by simp [hstring]), if_neg (by simp [hopen]),
      if_neg (by simp [hclose])]
  · have hascii := isAscii_of_not_isPlain (Bool.eq_false_iff.mpr hplain)
    have hone := bytes_append_singleton s hascii
    by_cases hstring : Expression.opensString c = true
    · have hturn : codeTurn unit (scan.map (offsetAt unit)) (Text.bytes s) c
          = .ok (Text.bytes (s ++ [c]), scan.map (offsetAt unit), some c) := by
        rw [codeTurn, if_pos hstring, hone]
        rfl
      have hslash : c ≠ '\\' := by
        rintro rfl
        exact absurd hstring (by decide)
      rw [if_pos hstring, scanFrom_code hunit hascii hturn, hrest.string scan c hascii hslash]
    · rw [if_neg hstring]
      by_cases hopen : Expression.opensGroup c = true
      · have hturn : codeTurn unit (scan.map (offsetAt unit)) (Text.bytes s) c
            = .ok (Text.bytes (s ++ [c]), (scan.opened (s.length + 1)).map (offsetAt unit), none) := by
          rw [codeTurn, if_neg hstring, if_pos hopen, Scan.map_opened, hplace, hone]
          rfl
        rw [if_pos hopen, scanFrom_code hunit hascii hturn, hrest.code, hlength]
      · have hclose : Expression.closesGroup c = true := by
          by_contra hnot
          exact hplain (Expression.isPlain_iff.mpr
            ⟨by simpa using hstring, by simpa using hopen, by simpa using hnot, hbar⟩)
        have hturn : codeTurn unit (scan.map (offsetAt unit)) (Text.bytes s) c
            = .ok (Text.bytes (s ++ [c]), (scan.closed s.length).map (offsetAt unit), none) := by
          rw [codeTurn, if_neg hstring, if_neg hopen, if_pos hclose, Scan.map_closed, hhere, hone]
          rfl
        rw [if_neg hopen, if_pos hclose, scanFrom_code hunit hascii hturn, hrest.code]

/-- Two bars. -/
theorem code_or (hunit : unit = s ++ '|' :: '|' :: cs) (hrest : ScansRest unit (s ++ ['|', '|']) cs)
    (scan : Scan) :
    scanFrom unit (Text.bytes s, scan.map (offsetAt unit), none)
      = .ok ((Expression.scanCode scan s.length ('|' :: '|' :: cs)).map (offsetAt unit)) := by
  have hlength : (s ++ ['|', '|']).length = s.length + 2 := by simp
  have hnext := getElem?_eq_some_iff (s ++ ['|']) ('|' :: cs) (show IsAscii '|' by decide)
  rw [List.append_assoc, List.singleton_append, ← hunit, bytes_append_singleton s (by decide)] at hnext
  have hturn : codeTurn unit (scan.map (offsetAt unit)) (Text.bytes s) '|'
      = .ok (Text.bytes (s ++ '|' :: ['|']), scan.map (offsetAt unit), none) := by
    rw [codeTurn, if_neg (by decide), if_neg (by decide), if_neg (by decide), if_pos rfl,
      if_pos (hnext.mpr rfl), Text.bytes_append]
    rfl
  rw [Expression.scanCode, scanFrom_code hunit (by decide) hturn, hrest.code, hlength]

/-- A single bar. -/
theorem code_bar (hunit : unit = s ++ '|' :: cs) (hsingle : cs.head? ≠ some '|')
    (hrest : ScansRest unit (s ++ ['|']) cs) (scan : Scan) :
    scanFrom unit (Text.bytes s, scan.map (offsetAt unit), none)
      = .ok ((Expression.scanCode scan s.length ('|' :: cs)).map (offsetAt unit)) := by
  have hlength : (s ++ ['|']).length = s.length + 1 := by simp
  have hone := bytes_append_singleton s (show IsAscii '|' by decide)
  have hhere : offsetAt unit s.length = Text.bytes s := by rw [hunit, offsetAt_length]
  have hnext := getElem?_eq_some_iff (s ++ ['|']) cs (show IsAscii '|' by decide)
  have hslice := textBetween_end (s ++ ['|']) cs
  rw [List.append_assoc, List.singleton_append, ← hunit, hone] at hnext hslice
  have hturn : codeTurn unit (scan.map (offsetAt unit)) (Text.bytes s) '|'
      = .ok (Text.bytes (s ++ ['|']), (scan.piped s.length
        (Expression.pipeName cs = Expression.translationPipe)).map (offsetAt unit), none) := by
    rw [codeTurn, if_neg (by decide), if_neg (by decide), if_neg (by decide), if_pos rfl,
      if_neg fun hyes => hsingle (hnext.mp hyes), hslice, ok_bind, pipeName_eq, ok_bind,
      Scan.map_piped, hhere, hone]
    rfl
  rw [Expression.scanCode_bar hsingle, scanFrom_code hunit (by decide) hturn, hrest.code, hlength]

/-- A character of a string that no backslash stands before. -/
theorem string_cons {c : Char} (hunit : unit = s ++ c :: cs) (hslash : c ≠ '\\')
    (hrest : ScansRest unit (s ++ [c]) cs) (scan : Scan) {quote : Char} (hquote : IsAscii quote)
    (hne : quote ≠ '\\') :
    scanFrom unit (Text.bytes s, scan.map (offsetAt unit), some quote)
      = .ok ((Expression.scanString quote scan s.length (c :: cs)).map (offsetAt unit)) := by
  have hlength : (s ++ [c]).length = s.length + 1 := by simp
  rw [Expression.scanString]
  · by_cases hc : c = quote
    · subst hc
      rw [if_pos rfl, scanFrom_closing hunit hquote hne, hrest.code, hlength]
    · rw [if_neg hc, scanFrom_content hunit hquote hslash hc, hrest.string scan quote hquote hne,
        hlength]
  · exact fun _ _ heq => absurd heq hslash

/-- A character of a string with a backslash before it. -/
theorem string_escaped {c : Char} (hunit : unit = s ++ '\\' :: c :: cs)
    (hrest : ScansRest unit (s ++ ['\\', c]) cs) (scan : Scan) {quote : Char} (hquote : IsAscii quote)
    (hne : quote ≠ '\\') :
    scanFrom unit (Text.bytes s, scan.map (offsetAt unit), some quote)
      = .ok ((Expression.scanString quote scan s.length ('\\' :: c :: cs)).map (offsetAt unit)) := by
  have hlength : (s ++ ['\\', c]).length = s.length + 2 := by simp
  rw [Expression.scanString, scanFrom_escaped hunit hquote, hrest.string scan quote hquote hne,
    hlength]

/-- A backslash that ends the expression takes a byte beyond its end, which no turn looks at. -/
theorem string_backslash (s : Text) (scan : Scan) {quote : Char} (hne : quote ≠ '\\') :
    scanFrom (s ++ ['\\']) (Text.bytes s, scan.map (offsetAt (s ++ ['\\'])), some quote)
      = .ok ((Expression.scanString quote scan s.length ['\\']).map (offsetAt (s ++ ['\\']))) := by
  have hget : (utf8 (s ++ ['\\']))[Text.bytes s]? = some '\\' := by
    rw [getElem?_lead, lead_of_isAscii (by decide)]
  have hturn : scanTurn (s ++ ['\\']) (Text.bytes s, scan.map (offsetAt (s ++ ['\\'])), some quote)
      = .ok (.inl (Text.bytes s + 2, scan.map (offsetAt (s ++ ['\\'])), some quote)) := by
    rw [scanTurn_string hget, stringTurn, if_pos rfl]
  have hend : (utf8 (s ++ ['\\'])).length = Text.bytes s + 1 := by
    rw [length_utf8, bytes_append_singleton s (by decide)]
  have hplace := offsetAt_length (s ++ ['\\']) []
  rw [List.append_nil, List.length_append, List.length_singleton] at hplace
  rw [scanFrom_next hturn (by simp only [hend]; omega), scanFrom_end (by omega), Expression.scanString]
  · rw [if_neg hne.symm, Expression.scanString, Scan.map_finished, hplace]
  · rintro c cs - heq
    cases heq

theorem of_eq_append {t : Text} (hunit : unit = s ++ t) : ScansRest unit s t := by
  induction hlength : t.length using Nat.strong_induction_on generalizing s t with
  | _ n ih =>
      have hrest : ∀ w u, w ≠ [] → t = w ++ u → ScansRest unit (s ++ w) u := by
        rintro w u hw rfl
        have hpos := List.length_pos_iff.mpr hw
        rw [List.length_append] at hlength
        exact ih u.length (by omega) (by rw [hunit, List.append_assoc]) rfl
      cases t with
      | nil =>
          rw [List.append_nil] at hunit
          subst hunit
          exact ScansRest.nil unit
      | cons c cs =>
          have hone := hrest [c] cs (List.cons_ne_nil _ _) rfl
          constructor
          · intro scan
            by_cases hbar : c = '|'
            · subst hbar
              by_cases hor : cs.head? = some '|'
              · obtain ⟨cs, rfl⟩ := List.head?_eq_some_iff.mp hor
                exact code_or hunit (hrest ['|', '|'] cs (List.cons_ne_nil _ _) rfl) scan
              · exact code_bar hunit hor hone scan
            · exact code_cons hunit hbar hone scan
          · intro scan quote hquote hne
            by_cases hslash : c = '\\'
            · subst hslash
              cases cs with
              | nil =>
                  subst hunit
                  exact string_backslash s scan hne
              | cons d cs =>
                  exact string_escaped hunit (hrest ['\\', d] cs (List.cons_ne_nil _ _) rfl) scan
                    hquote hne
            · exact string_cons hunit hslash hone scan hquote hne

end ScansRest

theorem scanFrom_start (unit : Text) :
    scanFrom unit (0, {}, none)
      = .ok ((Expression.scanCode {} 0 unit).map (offsetAt unit)) := by
  have hstart : offsetAt unit 0 = 0 := offsetAt_length [] unit
  have hscan := (@ScansRest.of_eq_append unit [] unit rfl).code {}
  have hempty : Scan.map (offsetAt unit) {} = {} := by
    simp [Scan.map, Expression.Group.map, hstart]
  rw [hempty] at hscan
  exact hscan

/-! ## Keys -/

/-- The quoted keys of an operand, with their offsets in the expression. -/
def operandKeys (unit : Text) (operand : Stretch) : Checked (List QuotedKey) := do
  let text ← textBetween unit operand.start operand.stop
  pure ((Expression.quotedKeys 0 text).map fun entry =>
    ⟨operand.start + Text.bytes (text.take entry.place), entry.key⟩)

/-- The keys in the operands of the translation pipe. -/
def pipedKeys (unit : Text) : Checked (List Text) := do
  let scan ← scanFrom unit (0, {}, none)
  let found ← scan.operands.mapM (operandKeys unit)
  let kept := found.flatten.filter fun entry =>
    !scan.arguments.any fun stretch => stretch.has entry.place
  pure ((kept.foldl (fun keys entry => Expression.insertKey entry keys) []).map QuotedKey.key)

/-- The candidate keys of a source. -/
def keys (source : Text) : Checked (List Text) := do
  let units ← interpolations source
  let piped ← if units.isEmpty then pipedKeys source
    else do
      let found ← units.mapM pipedKeys
      pure found.flatten
  pure (piped ++ Expression.readKeys false source)

theorem mapM_of_eq_ok {α β : Type} {f : α → Checked β} {g : α → β} {l : List α}
    (h : ∀ a ∈ l, f a = .ok (g a)) : l.mapM f = .ok (l.map g) := by
  induction l with
  | nil => rfl
  | cons a l ih =>
      obtain ⟨ha, hl⟩ := List.forall_mem_cons.mp h
      rw [List.mapM_cons, ha, ok_bind, ih hl]
      rfl

theorem offsetAt_add (head text tail : Text) {place : Nat} (h : place ≤ text.length) :
    offsetAt (head ++ (text ++ tail)) (head.length + place)
      = Text.bytes head + Text.bytes (text.take place) := by
  have hplace := offsetAt_length (head ++ text.take place) (text.drop place ++ tail)
  rwa [List.append_assoc, ← List.append_assoc _ _ tail, List.take_append_drop, List.length_append,
    List.length_take_of_le h, Text.bytes_append] at hplace

/-- The keys of an operand are those of its characters, at the offsets of their places. -/
theorem operandKeys_append (head text tail : Text) :
    operandKeys (head ++ (text ++ tail)) ⟨Text.bytes head, Text.bytes (head ++ text)⟩
      = .ok ((Expression.quotedKeys head.length text).map
        (QuotedKey.map (offsetAt (head ++ (text ++ tail))))) := by
  have hshift := Expression.quotedKeys_add head.length 0 text
  rw [Nat.add_zero] at hshift
  rw [operandKeys, textBetween_append, ok_bind, hshift, List.map_map]
  refine congrArg Except.ok (List.map_congr_left fun entry hentry => ?_)
  have hplace := (Expression.place_of_mem_quotedKeys entry hentry).2
  rw [Nat.zero_add] at hplace
  simp only [Function.comp_apply, QuotedKey.map, offsetAt_add head text tail (Nat.le_of_lt hplace)]

theorem operandKeys_eq {unit : Text} {operand : Stretch} (hle : operand.start ≤ operand.stop)
    (hstop : operand.stop ≤ unit.length) :
    operandKeys unit (operand.map (offsetAt unit))
      = .ok ((Expression.quotedKeys operand.start
          ((unit.take operand.stop).drop operand.start)).map (QuotedKey.map (offsetAt unit))) := by
  obtain ⟨start, stop⟩ := operand
  dsimp only at hle hstop
  have hhead : unit.take start ++ (unit.take stop).drop start = unit.take stop := by
    have htake := List.take_append_drop start (unit.take stop)
    rwa [List.take_take, Nat.min_eq_left hle] at htake
  have hunit : unit.take start ++ ((unit.take stop).drop start ++ unit.drop stop) = unit := by
    rw [← List.append_assoc, hhead, List.take_append_drop]
  have hkeys := operandKeys_append (unit.take start) ((unit.take stop).drop start) (unit.drop stop)
  rw [hunit, hhead, List.length_take_of_le (hle.trans hstop)] at hkeys
  rw [Stretch.map, offsetAt_of_le hstop, offsetAt_of_le (hle.trans hstop)]
  exact hkeys

/-- The keys that are kept, and their order, are the same by offsets as by places. -/
theorem pipedKeys_eq (unit : Text) : pipedKeys unit = .ok (Expression.pipedKeys unit) := by
  have hmono := strictMono_offsetAt unit
  rw [pipedKeys, scanFrom_start, ok_bind, Expression.pipedKeys]
  generalize hscan : Expression.scanCode {} 0 unit = scan
  have hoperands : ∀ operand ∈ scan.operands,
      operandKeys unit (operand.map (offsetAt unit))
        = .ok ((Expression.quotedKeys operand.start
          ((unit.take operand.stop).drop operand.start)).map (QuotedKey.map (offsetAt unit))) := by
    intro operand hmem
    obtain ⟨hle, hstop⟩ := Expression.operand_le (hscan ▸ hmem)
    exact operandKeys_eq hle hstop
  have hfound : (scan.map (offsetAt unit)).operands.mapM (operandKeys unit)
      = .ok (scan.operands.map fun operand => (Expression.quotedKeys operand.start
          ((unit.take operand.stop).drop operand.start)).map (QuotedKey.map (offsetAt unit))) := by
    rw [Scan.map, List.mapM_map]
    exact mapM_of_eq_ok hoperands
  have hkept : (fun entry : QuotedKey =>
        !(scan.map (offsetAt unit)).arguments.any fun stretch => stretch.has entry.place)
        ∘ QuotedKey.map (offsetAt unit)
      = fun entry => !scan.arguments.any fun stretch => stretch.has entry.place := by
    funext entry
    simp only [Function.comp_apply, Scan.map, QuotedKey.map, List.any_map, Function.comp_def,
      Stretch.has_map hmono]
  have hinsert := fun entries => Expression.foldl_insertKey_map hmono entries []
  rw [List.map_nil] at hinsert
  rw [hfound, ok_bind, ← List.flatMap_def, ← List.map_flatMap, List.filter_map, hkept]
  dsimp only
  rw [hinsert, List.map_map]
  rfl

theorem keys_eq (source : Text) : keys source = .ok (Expression.keys source) := by
  rw [keys, interpolations_eq, ok_bind, Expression.keys]
  dsimp only
  split
  · rw [pipedKeys_eq]
    rfl
  · rw [mapM_of_eq_ok fun unit _ => pipedKeys_eq unit]
    rfl

/-! ## No faults -/

theorem faultless_ne_fault {α : Type} (result : Except Template.Error α) (fault : Fault) :
    faultless result ≠ .error (.fault fault) := by
  cases result with
  | error e => simp
  | ok a => simp

/-- Reading by offsets never looks beyond the end, cuts within a character, takes a number from a
smaller one or goes on from where it was: for a template of less than `2 ^ 32` bytes, for the
references of any text and for the keys of any expression. It finds what reading by characters
finds. -/
theorem reads_without_fault (source : Text) (hsize : Text.bytes source < 2 ^ 32) :
    (∀ fault, items source ≠ .error (.fault fault)) ∧
      items source = faultless (Template.items source) ∧
      (∀ t, decodeEntities t = .ok (Template.decodeEntities t)) ∧
      ∀ t, keys t = .ok (Expression.keys t) := by
  refine ⟨fun fault => ?_, items_eq hsize, decodeEntities_eq, keys_eq⟩
  rw [items_eq hsize]
  exact faultless_ne_fault _ fault

/-- Characters of several bytes stand in a condition, in a tag, in a value and after an ampersand, and
the template ends within a tag. -/
theorem reads_umlauts_without_fault :
    Text.bytes "ä@if (ö) \x7b &ü; <p é='ß' ö".toList < 2 ^ 32 ∧
      items "ä@if (ö) \x7b &ü; <p é='ß' ö".toList
        = faultless (Template.items "ä@if (ö) \x7b &ü; <p é='ß' ö".toList) ∧
      decodeEntities "&ü;&amp".toList = .ok (Template.decodeEntities "&ü;&amp".toList) ∧
      keys "'a.b\\ä' | transloco".toList = .ok (Expression.keys "'a.b\\ä' | transloco".toList) :=
  have hread := reads_without_fault "ä@if (ö) \x7b &ü; <p é='ß' ö".toList (by decide)
  ⟨by decide, hread.2.1, hread.2.2.1 _, hread.2.2.2 _⟩

end KeyLint.Cursor
