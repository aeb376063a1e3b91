import KeyLint.Json.Printer
import KeyLint.Json.Reader
import KeyLint.Proofs.Text

/-!
# Reading back written JSON

A value that is written is read back as it was. The text is taken apart in two passes, and each has
its own statement: the written text consists of the tokens of the value, and the tokens of a value
are read as that value, whatever frames are open and whatever follows.
-/

namespace KeyLint.Json

/-! ## Strings -/

namespace Quoted

theorem digitValue?_hexDigit (n : Nat) : Text.digitValue? (hexDigit n) = some (n % 16) := by
  have hall : ∀ d < 16, Text.digitValue? (Nat.digitChar d) = some d := by decide
  exact hall (n % 16) (Nat.mod_lt n (by decide))

theorem unit?_control {n : Nat} (hn : n < 0x20) (rest : Text) :
    unit? ('0' :: '0' :: hexDigit (n / 16) :: hexDigit n :: rest) = some (n, rest) := by
  have hzero : Text.digitValue? '0' = some 0 := by decide
  have hvalue : (n / 16 % 16) * 16 + n % 16 = n := by omega
  have hhigh : n / 16 % 16 < 16 := Nat.mod_lt _ (by decide)
  have hlow : n % 16 < 16 := Nat.mod_lt _ (by decide)
  simp [unit?, Text.hexValue?, Text.digitsValue?, hzero, digitValue?_hexDigit, hhigh, hlow, hvalue]

/-- How a character is written: after a backslash as the letter that stands for it, by its code
point, or as itself. -/
theorem escape_cases (c : Char) :
    (∃ e, unescape? e = some c ∧ e ≠ 'u' ∧ escape c = ['\\', e]) ∨
      (c.toNat < 0x20 ∧
        escape c = ['\\', 'u', '0', '0', hexDigit (c.toNat / 16), hexDigit c.toNat]) ∨
      (c ≠ '"' ∧ c ≠ '\\' ∧ ¬ c.toNat < 0x20 ∧ escape c = [c]) := by
  by_cases hquote : c = '"'
  · exact .inl ⟨'"', by simp [hquote, unescape?], by decide, by subst hquote; rfl⟩
  by_cases hslash : c = '\\'
  · exact .inl ⟨'\\', by simp [hslash, unescape?], by decide, by subst hslash; rfl⟩
  by_cases hback : c = '\x08'
  · exact .inl ⟨'b', by simp [hback, unescape?], by decide, by subst hback; rfl⟩
  by_cases hform : c = '\x0c'
  · exact .inl ⟨'f', by simp [hform, unescape?], by decide, by subst hform; rfl⟩
  by_cases hfeed : c = '\n'
  · exact .inl ⟨'n', by simp [hfeed, unescape?], by decide, by subst hfeed; rfl⟩
  by_cases hreturn : c = '\r'
  · exact .inl ⟨'r', by simp [hreturn, unescape?], by decide, by subst hreturn; rfl⟩
  by_cases htab : c = '\t'
  · exact .inl ⟨'t', by simp [htab, unescape?], by decide, by subst htab; rfl⟩
  rw [escape, if_neg hquote, if_neg hslash, if_neg hback, if_neg hform, if_neg hfeed,
    if_neg hreturn, if_neg htab]
  by_cases hcontrol : c.toNat < 0x20
  · exact .inr (.inl ⟨hcontrol, by rw [if_pos hcontrol]; rfl⟩)
  · exact .inr (.inr ⟨hquote, hslash, hcontrol, by rw [if_neg hcontrol]⟩)

/-- What is written for a character is read as that character. -/
theorem char?_escape (c : Char) (rest : Text) : char? (escape c ++ rest) = some (c, rest) := by
  rcases escape_cases c with ⟨e, he, hu, hc⟩ | ⟨hcontrol, hc⟩ | ⟨hquote, hslash, hcontrol, hc⟩
  · rw [hc, List.cons_append, List.cons_append, List.nil_append, char?, he]
    · rfl
    · exact hu
  · have hunit := unit?_control hcontrol rest
    have hlow : c.toNat < 0xd800 := by omega
    rw [hc]
    simp only [List.cons_append, List.nil_append, char?, unitChar?, hunit]
    rw [if_pos (by simp [hlow]), Char.ofNat_toNat]
  · rw [hc, List.singleton_append, char?, if_neg (by simp [hquote, hslash, hcontrol])]
    · exact fun _ h _ => hslash h
    · exact fun _ _ h _ => hslash h

theorem head?_escape_append_ne (c : Char) (rest : Text) : (escape c ++ rest).head? ≠ some '"' := by
  rcases escape_cases c with ⟨e, _, _, hc⟩ | ⟨_, hc⟩ | ⟨hquote, _, _, hc⟩
  · simp [hc]
  · simp [hc]
  · simpa [hc] using hquote

theorem read?_of_char? {t rest s rest' : Text} {c : Char} (ht : t.head? ≠ some '"')
    (hchar : char? t = some (c, rest)) (hread : read? rest = some (s, rest')) :
    read? t = some (c :: s, rest') := by
  have hopen : ∀ r, t = '"' :: r → False := by
    rintro r rfl
    exact ht rfl
  rw [read?.eq_2 t hopen]
  split
  · next hnone =>
      rw [hchar] at hnone
      cases hnone
  · next hsome =>
      rw [hchar] at hsome
      cases hsome
      simp [hread]

theorem read?_escaped (t rest : Text) :
    read? (t.flatMap escape ++ '"' :: rest) = some (t, rest) := by
  induction t with
  | nil => rw [List.flatMap_nil, List.nil_append, read?]
  | cons c t ih =>
      rw [List.flatMap_cons, List.append_assoc]
      exact read?_of_char? (head?_escape_append_ne c _) (char?_escape c _) ih

end Quoted

/-! ## Numbers -/

namespace Token

theorem isPlain_of_isAsciiDigit {c : Char} (h : Text.isAsciiDigit c = true) : isPlain c = true := by
  simp [isPlain, Text.isAsciiAlnum, h]

theorem isPlain_of_isDigits {t : Text} (h : isDigits t = true) : ∀ c ∈ t, isPlain c = true := by
  rw [isDigits, Bool.and_eq_true, List.all_eq_true] at h
  exact fun c hc => isPlain_of_isAsciiDigit (h.2 c hc)

theorem isPlain_of_isExponent {t : Text} (h : isExponent t = true) : ∀ c ∈ t, isPlain c = true := by
  cases t with
  | nil => simp
  | cons e t =>
      rw [isExponent.eq_def, Bool.and_eq_true] at h
      obtain ⟨he, ht⟩ := h
      refine List.forall_mem_cons.mpr ⟨?_, ?_⟩
      · simp only [Bool.or_eq_true, decide_eq_true_eq] at he
        rcases he with rfl | rfl <;> decide
      · split at ht
        · exact List.forall_mem_cons.mpr ⟨by decide, isPlain_of_isDigits ht⟩
        · exact List.forall_mem_cons.mpr ⟨by decide, isPlain_of_isDigits ht⟩
        · exact isPlain_of_isDigits ht

/-- Digits and then something plain: the two parts that a number is cut into. -/
theorem isPlain_of_dropWhile {t : Text}
    (h : ∀ c ∈ t.dropWhile Text.isAsciiDigit, isPlain c = true) : ∀ c ∈ t, isPlain c = true := by
  intro c hc
  rw [← List.takeWhile_append_dropWhile (p := Text.isAsciiDigit) (l := t)] at hc
  rcases List.mem_append.mp hc with hc | hc
  · exact isPlain_of_isAsciiDigit (List.mem_takeWhile_imp hc)
  · exact h c hc

theorem isPlain_of_isFraction {t : Text} (h : isFraction t = true) : ∀ c ∈ t, isPlain c = true := by
  unfold isFraction at h
  split at h
  · rw [Bool.and_eq_true] at h
    exact List.forall_mem_cons.mpr
      ⟨by decide, isPlain_of_dropWhile (isPlain_of_isExponent h.2)⟩
  · exact isPlain_of_isExponent h

theorem isPlain_of_isMagnitude {t : Text} (h : isMagnitude t = true) :
    ∀ c ∈ t, isPlain c = true := by
  simp only [isMagnitude, Bool.and_eq_true] at h
  exact isPlain_of_dropWhile (isPlain_of_isFraction h.2)

theorem isPlain_of_isNumber {t : Text} (h : isNumber t = true) : ∀ c ∈ t, isPlain c = true := by
  unfold isNumber at h
  split at h
  · exact List.forall_mem_cons.mpr ⟨by decide, isPlain_of_isMagnitude h⟩
  · exact isPlain_of_isMagnitude h

theorem ofWord?_of_isNumber {t : Text} (h : isNumber t = true) : ofWord? t = some (.number t) := by
  have hnull : t ≠ "null".toList := by
    rintro rfl
    revert h
    decide
  have htrue : t ≠ "true".toList := by
    rintro rfl
    revert h
    decide
  have hfalse : t ≠ "false".toList := by
    rintro rfl
    revert h
    decide
  rw [ofWord?, if_neg hnull, if_neg htrue, if_neg hfalse, if_pos h]

/-! ## Tokens of a written text -/

/-- A word or a number before the text `t` ends there. -/
def EndsWord (t : Text) : Prop :=
  ∀ c ∈ t.head?, isPlain c = false

theorem scan_newLine (level : Nat) (t : Text) : scan (newLine level ++ t) = scan t := by
  have hblanks : ∀ n, scan (List.replicate n ' ' ++ t) = scan t := by
    intro n
    induction n with
    | zero => rfl
    | succ n ih => rw [List.replicate_succ, List.cons_append, scan, if_pos (by decide), ih]
  rw [newLine, List.cons_append, scan, if_pos (by decide), hblanks]

theorem scan_quoted (t rest : Text) :
    scan (Quoted.write t ++ rest) = (scan rest).map (.str t :: ·) := by
  have hread := Quoted.read?_escaped t rest
  have htext : Quoted.write t ++ rest = '"' :: (t.flatMap Quoted.escape ++ '"' :: rest) := by
    simp [Quoted.write]
  rw [htext, scan, if_neg (by decide), if_pos rfl]
  split
  · next hnone =>
      rw [hread] at hnone
      cases hnone
  · next hsome =>
      rw [hread] at hsome
      cases hsome
      rfl

theorem not_isSpace_of_isPlain {c : Char} (h : isPlain c = true) : isSpace c = false := by
  cases hspace : isSpace c with
  | false => rfl
  | true =>
      simp only [isSpace, Bool.or_eq_true, decide_eq_true_eq] at hspace
      rcases hspace with ((rfl | rfl) | rfl) | rfl <;> exact absurd h (by decide)

theorem scan_word {w rest : Text} {token : Token} (hne : w ≠ []) (hw : ∀ c ∈ w, isPlain c = true)
    (hrest : EndsWord rest) (htoken : ofWord? w = some token) :
    scan (w ++ rest) = (scan rest).map (token :: ·) := by
  obtain ⟨c, w, rfl⟩ := List.exists_cons_of_ne_nil hne
  obtain ⟨hc, hw⟩ := List.forall_mem_cons.mp hw
  have hquote : c ≠ '"' := by
    rintro rfl
    exact absurd hc (by decide)
  have htake := Text.takeWhile_append_of_head? hw hrest
  have hdrop := Text.dropWhile_append_of_head? hw hrest
  rw [List.cons_append, scan, if_neg (by simp [not_isSpace_of_isPlain hc]), if_neg hquote,
    if_pos hc]
  simp [htake, hdrop, htoken]

theorem scan_mark (c : Char) (token : Token) (hc : ofMark? c = some token) (rest : Text) :
    scan (c :: rest) = (scan rest).map (token :: ·) := by
  have hother : isSpace c = false ∧ c ≠ '"' ∧ isPlain c = false := by
    unfold ofMark? at hc
    split at hc
    all_goals first | decide | cases hc
  rw [scan, if_neg (by simp [hother.1]), if_neg hother.2.1, if_neg (by simp [hother.2.2])]
  simp [hc]

end Token

mutual

/-- The numbers in a value are written as JSON writes numbers. -/
def HasNumbers : Json → Prop
  | .number digits => Token.isNumber digits = true
  | .array items => ItemsHaveNumbers items
  | .object members => MembersHaveNumbers members
  | .null | .bool _ | .str _ => True

def ItemsHaveNumbers : List Json → Prop
  | [] => True
  | v :: vs => HasNumbers v ∧ ItemsHaveNumbers vs

def MembersHaveNumbers : List (Text × Json) → Prop
  | [] => True
  | (_, v) :: ms => HasNumbers v ∧ MembersHaveNumbers ms

end

mutual

/-- The tokens of a value. -/
def tokens : Json → List Token
  | .null => [.null]
  | .bool b => [.bool b]
  | .number digits => [.number digits]
  | .str t => [.str t]
  | .array [] => [.openArray, .closeArray]
  | .array (v :: vs) => .openArray :: (tokens v ++ (itemTokens vs ++ [.closeArray]))
  | .object [] => [.openObject, .closeObject]
  | .object ((name, v) :: ms) =>
    .openObject :: .str name :: .colon :: (tokens v ++ (memberTokens ms ++ [.closeObject]))

/-- The tokens of items after the first one. -/
def itemTokens : List Json → List Token
  | [] => []
  | v :: vs => .comma :: (tokens v ++ itemTokens vs)

/-- The tokens of members after the first one. -/
def memberTokens : List (Text × Json) → List Token
  | [] => []
  | (name, v) :: ms => .comma :: .str name :: .colon :: (tokens v ++ memberTokens ms)

end

/-! ## Tokens of a written value -/

theorem writeAt_array_append (level : Nat) (v : Json) (vs : List Json) (t : Text) :
    writeAt level (.array (v :: vs)) ++ t
      = '[' :: (newLine (level + 1) ++ (writeAt (level + 1) v
        ++ (writeItems (level + 1) vs ++ (newLine level ++ ']' :: t)))) := by
  change "[".toList ++ newLine (level + 1) ++ writeAt (level + 1) v ++ writeItems (level + 1) vs
    ++ newLine level ++ "]".toList ++ t = _
  simp only [List.append_assoc]
  rfl

theorem writeAt_object_append (level : Nat) (name : Text) (v : Json) (ms : List (Text × Json))
    (t : Text) :
    writeAt level (.object ((name, v) :: ms)) ++ t
      = '\x7b' :: (newLine (level + 1) ++ (Quoted.write name ++ (": ".toList
        ++ (writeAt (level + 1) v
          ++ (writeMembers (level + 1) ms ++ (newLine level ++ '\x7d' :: t)))))) := by
  change "\x7b".toList ++ newLine (level + 1) ++ Quoted.write name ++ ": ".toList
    ++ writeAt (level + 1) v ++ writeMembers (level + 1) ms ++ newLine level ++ "\x7d".toList ++ t = _
  simp only [List.append_assoc]
  rfl

theorem writeItems_append (level : Nat) (v : Json) (vs : List Json) (t : Text) :
    writeItems level (v :: vs) ++ t
      = ',' :: (newLine level ++ (writeAt level v ++ (writeItems level vs ++ t))) := by
  change ",".toList ++ newLine level ++ writeAt level v ++ writeItems level vs ++ t = _
  simp only [List.append_assoc]
  rfl

theorem writeMembers_append (level : Nat) (name : Text) (v : Json) (ms : List (Text × Json))
    (t : Text) :
    writeMembers level ((name, v) :: ms) ++ t
      = ',' :: (newLine level ++ (Quoted.write name ++ (": ".toList
        ++ (writeAt level v ++ (writeMembers level ms ++ t))))) := by
  change ",".toList ++ newLine level ++ Quoted.write name ++ ": ".toList ++ writeAt level v
    ++ writeMembers level ms ++ t = _
  simp only [List.append_assoc]
  rfl

open Token in
theorem endsWord_writeItems (level : Nat) (vs : List Json) {t : Text} (ht : EndsWord t) :
    EndsWord (writeItems level vs ++ t) := by
  cases vs with
  | nil => exact ht
  | cons v vs =>
      rintro c ⟨⟩
      decide

open Token in
theorem endsWord_writeMembers (level : Nat) (ms : List (Text × Json)) {t : Text}
    (ht : EndsWord t) : EndsWord (writeMembers level ms ++ t) := by
  cases ms with
  | nil => exact ht
  | cons m ms =>
      rintro c ⟨⟩
      decide

open Token in
theorem endsWord_newLine (level : Nat) (t : Text) : EndsWord (newLine level ++ t) := by
  rintro c ⟨⟩
  decide

theorem scan_colon (t : Text) :
    Token.scan (": ".toList ++ t) = (Token.scan t).map (.colon :: ·) := by
  have hblank : Token.scan (' ' :: t) = Token.scan t := by
    rw [Token.scan, if_pos (by decide)]
  have htext : ": ".toList ++ t = ':' :: ' ' :: t := rfl
  rw [htext, Token.scan_mark ':' .colon rfl, hblank]

mutual

/-- The tokens of a written value are those of the value, if nothing after it goes on with a
word. -/
theorem scan_writeAt (level : Nat) {t : Text} (ht : Token.EndsWord t) :
    (v : Json) → HasNumbers v →
      Token.scan (writeAt level v ++ t) = (Token.scan t).map (tokens v ++ ·)
  | .null, _ => by
      exact Token.scan_word (w := "null".toList) (by decide) (List.all_eq_true.mp (by decide)) ht
        (by decide)
  | .bool true, _ => by
      exact Token.scan_word (w := "true".toList) (by decide) (List.all_eq_true.mp (by decide)) ht
        (by decide)
  | .bool false, _ => by
      exact Token.scan_word (w := "false".toList) (by decide) (List.all_eq_true.mp (by decide)) ht
        (by decide)
  | .number digits, h => by
      simp only [HasNumbers] at h
      have hne : digits ≠ [] := by
        rintro rfl
        exact absurd h (by decide)
      exact Token.scan_word hne (Token.isPlain_of_isNumber h) ht (Token.ofWord?_of_isNumber h)
  | .str s, _ => by
      exact Token.scan_quoted s t
  | .array [], _ => by
      have htext : writeAt level (.array []) ++ t = '[' :: ']' :: t := rfl
      rw [htext, Token.scan_mark '[' .openArray rfl,
        Token.scan_mark ']' .closeArray rfl]
      simp [tokens, Function.comp_def]
  | .array (v :: vs), h => by
      simp only [HasNumbers, ItemsHaveNumbers] at h
      have hend : Token.EndsWord (newLine level ++ ']' :: t) := endsWord_newLine level _
      rw [writeAt_array_append, Token.scan_mark '[' .openArray rfl, Token.scan_newLine,
        scan_writeAt (level + 1) (endsWord_writeItems (level + 1) vs hend) v h.1,
        scan_writeItems (level + 1) hend vs h.2, Token.scan_newLine,
        Token.scan_mark ']' .closeArray rfl]
      simp [tokens, Function.comp_def]
  | .object [], _ => by
      have htext : writeAt level (.object []) ++ t = '\x7b' :: '\x7d' :: t := rfl
      rw [htext, Token.scan_mark '\x7b' .openObject rfl,
        Token.scan_mark '\x7d' .closeObject rfl]
      simp [tokens, Function.comp_def]
  | .object ((name, v) :: ms), h => by
      simp only [HasNumbers, MembersHaveNumbers] at h
      have hend : Token.EndsWord (newLine level ++ '\x7d' :: t) := endsWord_newLine level _
      rw [writeAt_object_append, Token.scan_mark '\x7b' .openObject rfl, Token.scan_newLine,
        Token.scan_quoted, scan_colon,
        scan_writeAt (level + 1) (endsWord_writeMembers (level + 1) ms hend) v h.1,
        scan_writeMembers (level + 1) hend ms h.2, Token.scan_newLine,
        Token.scan_mark '\x7d' .closeObject rfl]
      simp [tokens, Function.comp_def]

theorem scan_writeItems (level : Nat) {t : Text} (ht : Token.EndsWord t) :
    (vs : List Json) → ItemsHaveNumbers vs →
      Token.scan (writeItems level vs ++ t) = (Token.scan t).map (itemTokens vs ++ ·)
  | [], _ => by
      simp [itemTokens, show writeItems level [] = [] from rfl]
  | v :: vs, h => by
      simp only [ItemsHaveNumbers] at h
      rw [writeItems_append, Token.scan_mark ',' .comma rfl, Token.scan_newLine,
        scan_writeAt level (endsWord_writeItems level vs ht) v h.1,
        scan_writeItems level ht vs h.2]
      simp [itemTokens, Function.comp_def]

theorem scan_writeMembers (level : Nat) {t : Text} (ht : Token.EndsWord t) :
    (ms : List (Text × Json)) → MembersHaveNumbers ms →
      Token.scan (writeMembers level ms ++ t) = (Token.scan t).map (memberTokens ms ++ ·)
  | [], _ => by
      simp [memberTokens, show writeMembers level [] = [] from rfl]
  | (name, v) :: ms, h => by
      simp only [MembersHaveNumbers] at h
      rw [writeMembers_append, Token.scan_mark ',' .comma rfl, Token.scan_newLine, Token.scan_quoted,
        scan_colon, scan_writeAt level (endsWord_writeMembers level ms ht) v h.1,
        scan_writeMembers level ht ms h.2]
      simp [memberTokens, Function.comp_def]

end

/-! ## Values of tokens -/

theorem exists_tokens_eq_cons (v : Json) : ∃ token ts, tokens v = token :: ts ∧ token ≠ .closeArray := by
  rcases v with _ | _ | _ | _ | (_ | _) | (_ | ⟨⟨_, _⟩, _⟩)
  all_goals exact ⟨_, _, by rw [tokens], by simp⟩

mutual

/-- The tokens of a value are read as that value inside whatever is open. -/
theorem readValue_tokens (stack : List Frame) (ts : List Token) :
    (v : Json) → readValue stack (tokens v ++ ts) = resume stack v ts
  | .null | .bool _ | .number _ | .str _ => by
      simp [tokens, readValue]
  | .array [] => by
      simp [tokens, readValue]
  | .array (v :: vs) => by
      obtain ⟨token, more, hv, hopen⟩ := exists_tokens_eq_cons v
      have hinner := readValue_tokens (.array [] :: stack) (itemTokens vs ++ .closeArray :: ts) v
      have hitems := resume_itemTokens stack [] v ts vs
      rw [hv, List.cons_append] at hinner
      simp only [tokens, hv, List.cons_append, List.append_assoc, List.nil_append]
      rw [readValue, hinner, hitems]
      · rfl
      · rintro more' h
        simp only [List.cons.injEq] at h
        exact hopen h.1
  | .object [] => by
      simp [tokens, readValue]
  | .object ((name, v) :: ms) => by
      have hinner :=
        readValue_tokens (.object [] name :: stack) (memberTokens ms ++ .closeObject :: ts) v
      have hmembers := resume_memberTokens stack [] name v ts ms
      simp only [tokens, List.cons_append, List.append_assoc, List.nil_append]
      rw [readValue, hinner, hmembers]
      rfl

theorem resume_itemTokens (stack : List Frame) (done : List Json) (v : Json) (ts : List Token) :
    (vs : List Json) →
      resume (.array done :: stack) v (itemTokens vs ++ .closeArray :: ts)
        = resume stack (.array (done.reverse ++ v :: vs)) ts
  | [] => by
      simp [itemTokens, resume]
  | w :: vs => by
      have hitems := resume_itemTokens stack (v :: done) w ts vs
      simp only [itemTokens, List.cons_append, List.append_assoc]
      rw [resume, readValue_tokens (.array (v :: done) :: stack) _ w, hitems]
      simp

theorem resume_memberTokens (stack : List Frame) (done : List (Text × Json)) (name : Text)
    (v : Json) (ts : List Token) :
    (ms : List (Text × Json)) →
      resume (.object done name :: stack) v (memberTokens ms ++ .closeObject :: ts)
        = resume stack (.object (done.reverse ++ (name, v) :: ms)) ts
  | [] => by
      simp [memberTokens, resume]
  | (next, w) :: ms => by
      have hmembers := resume_memberTokens stack ((name, v) :: done) next w ts ms
      simp only [memberTokens, List.cons_append, List.append_assoc]
      rw [resume, readValue_tokens (.object ((name, v) :: done) next :: stack) _ w, hmembers]
      simp

end

/-- A written value is read back as it was. -/
theorem parse?_write {v : Json} (hv : HasNumbers v) : parse? (write v) = some v := by
  have hscan := scan_writeAt 0 (t := []) (by simp [Token.EndsWord]) v hv
  have hempty : Token.scan [] = some [] := by rw [Token.scan]
  rw [List.append_nil, hempty] at hscan
  have hread := readValue_tokens [] [] v
  rw [List.append_nil] at hread
  simp [parse?, write, hscan, hread, resume]

end KeyLint.Json
