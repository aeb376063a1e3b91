import KeyLint.Proofs.Text
import KeyLint.Template.Item

/-!
# Reading by byte offsets

A template can be read in place: a cursor moves over the bytes of the text, bytes are looked at by
their offsets, and parts of the text are cut out between two offsets. None of this is safe by
itself. Here are the steps such a reader is made of, each with its check, so that a step that must
not happen ends in a fault, and what each of them does where the cursor stands between two
characters.
-/

namespace KeyLint.Cursor

/-! ## Steps that may fail -/

/-- What must not happen. -/
inductive Fault where
  /-- A byte is looked at beyond the end. -/
  | index
  /-- A part is cut out whose ends are out of order or out of range, or within a character. -/
  | slice
  /-- A number is taken from a smaller one. -/
  | underflow
  /-- A loop goes on from where it was. -/
  | stuck
deriving Repr, DecidableEq, Inhabited

/-- Why there is no result: a fault, or a template that is refused. -/
inductive Stop where
  | fault (fault : Fault)
  | refused (error : Template.Error)
deriving Repr, DecidableEq, Inhabited

/-- A computation with checks. -/
abbrev Checked := Except Stop

@[simp] theorem ok_bind {α β : Type} (a : α) (f : α → Checked β) : (Except.ok a >>= f) = f a :=
  rfl

@[simp] theorem error_bind {α β : Type} (e : Stop) (f : α → Checked β) :
    (Except.error e >>= f) = .error e :=
  rfl

@[simp] theorem pure_eq_ok {α : Type} (a : α) : (pure a : Checked α) = .ok a :=
  rfl

/-- A result that no fault was in the way of. -/
def faultless {α : Type} (result : Except Template.Error α) : Checked α :=
  result.mapError .refused

@[simp] theorem faultless_ok {α : Type} (a : α) : faultless (.ok a) = .ok a :=
  rfl

@[simp] theorem faultless_error {α : Type} (e : Template.Error) :
    (faultless (.error e) : Checked α) = .error (.refused e) :=
  rfl

/-! ## Loops -/

/-- A loop, whose turns go on with another state or end it. What is `left` to do has to become less
with every turn. -/
def iterate {σ ρ : Type} (left : σ → Nat) (turn : σ → Checked (σ ⊕ ρ)) (s : σ) : Checked ρ :=
  match turn s with
  | .error e => .error e
  | .ok (.inr r) => .ok r
  | .ok (.inl s') =>
    if _h : left s' < left s then iterate left turn s' else .error (.fault .stuck)
termination_by left s

section Loops

variable {σ ρ : Type} {left : σ → Nat} {turn : σ → Checked (σ ⊕ ρ)} {s s' : σ}

theorem iterate_done {r : ρ} (h : turn s = .ok (.inr r)) : iterate left turn s = .ok r := by
  rw [iterate, h]

theorem iterate_error {e : Stop} (h : turn s = .error e) : iterate left turn s = .error e := by
  rw [iterate, h]

theorem iterate_next (h : turn s = .ok (.inl s')) (hless : left s' < left s) :
    iterate left turn s = iterate left turn s' := by
  rw [iterate, h]
  exact dif_pos hless

/-- Turns that follow each other along a path. -/
theorem iterate_path (path : Nat → σ) (n : Nat)
    (h : ∀ k < n, turn (path k) = .ok (.inl (path (k + 1))) ∧ left (path (k + 1)) < left (path k)) :
    iterate left turn (path 0) = iterate left turn (path n) := by
  induction n with
  | zero => rfl
  | succ n ih =>
      have hlast := h n (Nat.lt_succ_self n)
      rw [ih fun k hk => h k (Nat.lt_succ_of_lt hk), iterate_next hlast.1 hlast.2]

end Loops

/-! ## The bytes of a text -/

/-- Bytes, each as the character that has its number. -/
abbrev Octets := List Char

/-- The bytes of a character in UTF-8. -/
def octets (c : Char) : Octets :=
  (String.utf8EncodeChar c).map Char.ofUInt8

/-- The bytes of a text in UTF-8. -/
def utf8 (t : Text) : Octets :=
  t.flatMap octets

/-- A character of ASCII, which is its own byte. -/
def IsAscii (c : Char) : Prop :=
  c.toNat < 0x80

theorem toNat_ofUInt8 (b : UInt8) : (Char.ofUInt8 b).toNat = b.toNat :=
  UInt8.toNat_toUInt32 b

instance (c : Char) : Decidable (IsAscii c) :=
  inferInstanceAs (Decidable (c.toNat < 0x80))

/-- A text of ASCII, which is its own bytes. -/
def IsAsciiText (t : Text) : Prop :=
  ∀ c ∈ t, IsAscii c

instance (t : Text) : Decidable (IsAsciiText t) :=
  List.decidableBAll IsAscii t

theorem octets_of_isAscii {c : Char} (h : IsAscii c) : octets c = [c] := by
  have hlow : c.val.toNat ≤ 127 := Nat.le_of_lt_succ h
  rw [octets, String.utf8EncodeChar, if_pos hlow, List.map_singleton, List.singleton_inj]
  refine Char.toNat_inj.mp ?_
  rw [toNat_ofUInt8, UInt8.toNat_ofNat']
  exact Nat.mod_eq_of_lt (Nat.lt_of_lt_of_le h (by decide))

theorem not_isAscii_of_mem_octets {c b : Char} (hc : ¬ IsAscii c) (hb : b ∈ octets c) :
    ¬ IsAscii b := by
  obtain ⟨x, hx, rfl⟩ := List.mem_map.mp hb
  have hhigh : ¬ c.val.toNat ≤ 127 := fun hlow => hc (Nat.lt_succ_of_le hlow)
  rw [IsAscii, toNat_ofUInt8]
  rw [String.utf8EncodeChar, if_neg hhigh] at hx
  generalize c.val.toNat = n at hx
  split at hx
  · simp only [List.mem_cons, List.not_mem_nil, or_false] at hx
    rcases hx with rfl | rfl <;> simp only [UInt8.toNat_ofNat'] <;> omega
  · split at hx
    · simp only [List.mem_cons, List.not_mem_nil, or_false] at hx
      rcases hx with rfl | rfl | rfl <;> simp only [UInt8.toNat_ofNat'] <;> omega
    · simp only [List.mem_cons, List.not_mem_nil, or_false] at hx
      rcases hx with rfl | rfl | rfl | rfl <;> simp only [UInt8.toNat_ofNat'] <;> omega

theorem length_octets (c : Char) : (octets c).length = c.utf8Size := by
  rw [octets, List.length_map, String.length_utf8EncodeChar]

theorem utf8Size_of_isAscii {c : Char} (h : IsAscii c) : c.utf8Size = 1 := by
  rw [← length_octets, octets_of_isAscii h]
  rfl

theorem utf8_cons (c : Char) (t : Text) : utf8 (c :: t) = octets c ++ utf8 t :=
  rfl

theorem utf8_append (s t : Text) : utf8 (s ++ t) = utf8 s ++ utf8 t :=
  List.flatMap_append

@[simp] theorem length_utf8 (t : Text) : (utf8 t).length = Text.bytes t := by
  induction t with
  | nil => rfl
  | cons c t ih => rw [utf8_cons, List.length_append, length_octets, ih, Text.bytes_cons]

theorem take_utf8 (s t : Text) : (utf8 (s ++ t)).take (Text.bytes s) = utf8 s := by
  rw [utf8_append, ← length_utf8, List.take_left]

theorem drop_utf8 (s t : Text) : (utf8 (s ++ t)).drop (Text.bytes s) = utf8 t := by
  rw [utf8_append, ← length_utf8, List.drop_left]

theorem getElem?_utf8 (s t : Text) (k : Nat) :
    (utf8 (s ++ t))[Text.bytes s + k]? = (utf8 t)[k]? := by
  rw [← drop_utf8 s t, List.getElem?_drop]

theorem bytes_append_sub (s t : Text) : Text.bytes (s ++ t) - Text.bytes t = Text.bytes s := by
  rw [Text.bytes_append, Nat.add_sub_cancel]

theorem bytes_append_singleton (s : Text) {c : Char} (hc : IsAscii c) :
    Text.bytes (s ++ [c]) = Text.bytes s + 1 := by
  rw [Text.bytes_append, Text.bytes_cons, utf8Size_of_isAscii hc, Text.bytes_nil]

theorem bytes_lt_length_utf8 (s : Text) (c : Char) (t : Text) :
    Text.bytes s < (utf8 (s ++ c :: t)).length := by
  have hpos := c.utf8Size_pos
  simp only [length_utf8, Text.bytes_append, Text.bytes_cons]
  omega

/-- A cursor that passes a character has less to go. -/
theorem left_lt (s : Text) (c : Char) (t u : Text) :
    (utf8 (s ++ c :: t)).length - Text.bytes (s ++ c :: u)
      < (utf8 (s ++ c :: t)).length - Text.bytes s := by
  have hpos := c.utf8Size_pos
  simp only [length_utf8, Text.bytes_append, Text.bytes_cons]
  omega

/-! ### The first byte of a character -/

/-- The first byte of a character. -/
def lead (c : Char) : Char :=
  (octets c).headD c

theorem lead_of_isAscii {c : Char} (h : IsAscii c) : lead c = c := by
  rw [lead, octets_of_isAscii h]
  rfl

theorem octets_eq_cons (c : Char) : ∃ rest, octets c = lead c :: rest := by
  cases hc : octets c with
  | nil =>
      have hsize := c.utf8Size_pos
      rw [← length_octets, hc] at hsize
      cases hsize
  | cons b rest => exact ⟨rest, by rw [lead, hc, List.headD_cons]⟩

theorem lead_eq_iff {a : Char} (ha : IsAscii a) {c : Char} : lead c = a ↔ c = a := by
  by_cases hc : IsAscii c
  · rw [lead_of_isAscii hc]
  · obtain ⟨rest, hrest⟩ := octets_eq_cons c
    have hlead : ¬ IsAscii (lead c) := not_isAscii_of_mem_octets hc (by simp [hrest])
    constructor
    · rintro rfl
      exact absurd ha hlead
    · rintro rfl
      exact absurd ha hc

theorem getElem?_lead (s : Text) (c : Char) (t : Text) :
    (utf8 (s ++ c :: t))[Text.bytes s]? = some (lead c) := by
  obtain ⟨rest, hrest⟩ := octets_eq_cons c
  have hget := getElem?_utf8 s (c :: t) 0
  rw [Nat.add_zero] at hget
  rw [hget, utf8_cons, hrest]
  rfl

theorem getElem?_end (s : Text) : (utf8 s)[Text.bytes s]? = none := by
  rw [List.getElem?_eq_none]
  exact Nat.le_of_eq (length_utf8 s)

theorem getElem?_eq_some_iff (s t : Text) {a : Char} (ha : IsAscii a) :
    (utf8 (s ++ t))[Text.bytes s]? = some a ↔ t.head? = some a := by
  cases t with
  | nil => simp
  | cons c t => rw [getElem?_lead, List.head?_cons, Option.some_inj, Option.some_inj, lead_eq_iff ha]

/-- The other bytes of a character belong to no character of ASCII, as its first one. -/
theorem exists_getElem?_of_not_isAscii (s : Text) {c : Char} (hc : ¬ IsAscii c) (t : Text) {k : Nat}
    (hk : k < c.utf8Size) :
    ∃ b, (utf8 (s ++ c :: t))[Text.bytes s + k]? = some b ∧ ¬ IsAscii b := by
  rw [← length_octets] at hk
  refine ⟨(octets c)[k], ?_, not_isAscii_of_mem_octets hc (List.getElem_mem hk)⟩
  rw [getElem?_utf8, utf8_cons, List.getElem?_append_left hk, List.getElem?_eq_getElem hk]

/-- A class of characters that takes all those beyond ASCII or none. -/
def IsByteClass (p : Char → Bool) : Prop :=
  ∀ c d, ¬ IsAscii c → ¬ IsAscii d → p c = p d

theorem IsByteClass.of_isAscii {p : Char → Bool} (h : ∀ c, p c = true → IsAscii c) :
    IsByteClass p := by
  have hfalse : ∀ c, ¬ IsAscii c → p c = false := fun c hc => by
    rw [Bool.eq_false_iff]
    exact fun hpc => hc (h c hpc)
  intro c d hc hd
  rw [hfalse c hc, hfalse d hd]

theorem IsByteClass.of_list (as : List Char) (has : IsAsciiText as) :
    IsByteClass fun c => as.contains c :=
  .of_isAscii fun c hc => has c (by simpa using hc)

theorem isAscii_of_le {c d : Char} (hd : IsAscii d) (h : c ≤ d) : IsAscii c :=
  Nat.lt_of_le_of_lt (show c.toNat ≤ d.toNat from h) hd

theorem isAscii_of_isAsciiLetter {c : Char} (h : Text.isAsciiLetter c = true) : IsAscii c := by
  simp only [Text.isAsciiLetter, Bool.or_eq_true, Bool.and_eq_true, decide_eq_true_eq] at h
  rcases h with ⟨_, hlast⟩ | ⟨_, hlast⟩
  · exact isAscii_of_le (by decide) hlast
  · exact isAscii_of_le (by decide) hlast

theorem isByteClass_isAsciiLetter : IsByteClass Text.isAsciiLetter :=
  .of_isAscii fun _ => isAscii_of_isAsciiLetter

theorem isByteClass_isAsciiBlank : IsByteClass Text.isAsciiBlank := by
  refine .of_isAscii fun c hc => ?_
  simp only [Text.isAsciiBlank, Bool.or_eq_true, decide_eq_true_eq] at hc
  rcases hc with (((rfl | rfl) | rfl) | rfl) | rfl <;> decide

theorem IsByteClass.lead_eq {p : Char → Bool} (hp : IsByteClass p) (c : Char) :
    p (lead c) = p c := by
  by_cases hc : IsAscii c
  · rw [lead_of_isAscii hc]
  · obtain ⟨rest, hrest⟩ := octets_eq_cons c
    exact hp _ _ (not_isAscii_of_mem_octets hc (by simp [hrest])) hc

theorem IsByteClass.exists_getElem? {p : Char → Bool} (hp : IsByteClass p) (s : Text) (c : Char)
    (t : Text) {k : Nat} (hk : k < c.utf8Size) :
    ∃ b, (utf8 (s ++ c :: t))[Text.bytes s + k]? = some b ∧ p b = p c := by
  by_cases hc : IsAscii c
  · rw [utf8Size_of_isAscii hc] at hk
    obtain rfl := Nat.lt_one_iff.mp hk
    exact ⟨c, by rw [Nat.add_zero, getElem?_lead, lead_of_isAscii hc], rfl⟩
  · obtain ⟨b, hget, hb⟩ := exists_getElem?_of_not_isAscii s hc t hk
    exact ⟨b, hget, hp b c hb hc⟩

/-! ## Checked access -/

/-- The byte at an offset. -/
def byteAt (bs : Octets) (i : Nat) : Checked Char :=
  match bs[i]? with
  | some b => .ok b
  | none => .error (.fault .index)

/-- The bytes between two offsets. -/
def octetsBetween (bs : Octets) (start stop : Nat) : Checked Octets :=
  if start ≤ stop ∧ stop ≤ bs.length then .ok ((bs.take stop).drop start)
  else .error (.fault .slice)

/-- The part of a text between two offsets. -/
def textBetween (t : Text) (start stop : Nat) : Checked Text :=
  if start ≤ stop then
    match Text.slice? t ⟨start, stop⟩ with
    | some s => .ok s
    | none => .error (.fault .slice)
  else .error (.fault .slice)

/-- A difference that has to be a natural number. -/
def minus (a b : Nat) : Checked Nat :=
  if b ≤ a then .ok (a - b) else .error (.fault .underflow)

/-- The offset of the first occurrence of a word in a text. -/
def find? (w t : Text) : Option Nat :=
  (Text.cut? w t).map fun found => Text.bytes found.1

/-- The offset of the first occurrence of a word in a text from an offset on, if that is one between
two characters. -/
def findFrom? (t : Text) (start : Nat) (w : Text) : Option Nat :=
  (Text.dropBytes? t start).bind fun rest => (find? w rest).map (start + ·)

def skipTurn (p : Char → Bool) (bs : Octets) (i : Nat) : Checked (Nat ⊕ Nat) :=
  if i < bs.length then do
    let b ← byteAt bs i
    if p b then pure (.inl (i + 1)) else pure (.inr i)
  else pure (.inr i)

/-- Moves on over the bytes of a class. -/
def skipWhile (p : Char → Bool) (bs : Octets) (start : Nat) : Checked Nat :=
  iterate (fun i => bs.length - i) (skipTurn p bs) start

theorem byteAt_lead (s : Text) (c : Char) (t : Text) :
    byteAt (utf8 (s ++ c :: t)) (Text.bytes s) = .ok (lead c) := by
  rw [byteAt, getElem?_lead]

theorem byteAt_of_isAscii (s : Text) {c : Char} (hc : IsAscii c) (t : Text) :
    byteAt (utf8 (s ++ c :: t)) (Text.bytes s) = .ok c := by
  rw [byteAt_lead, lead_of_isAscii hc]

theorem textBetween_append (s t u : Text) :
    textBetween (s ++ (t ++ u)) (Text.bytes s) (Text.bytes (s ++ t)) = .ok t := by
  rw [textBetween, if_pos (by simp), Text.bytes_append, ← List.append_assoc, Text.slice?_append]

-- A cut within a character is a fault.
example : textBetween "é".toList 0 1 = .error (.fault .slice) := by
  decide

theorem textBetween_start (s t : Text) : textBetween (s ++ t) 0 (Text.bytes s) = .ok s :=
  textBetween_append [] s t

theorem textBetween_end (s t : Text) :
    textBetween (s ++ t) (Text.bytes s) (Text.bytes (s ++ t)) = .ok t := by
  have hslice := textBetween_append s t []
  rwa [List.append_nil] at hslice

theorem findFrom?_append (s t w : Text) :
    findFrom? (s ++ t) (Text.bytes s) w
      = (Text.cut? w t).map fun found => Text.bytes (s ++ found.1) := by
  rw [findFrom?, Text.dropBytes?_append, Option.bind_some, find?, Option.map_map]
  simp only [Function.comp_def, Text.bytes_append]

theorem octetsBetween_drop (s t u : Text) {k : Nat} (hk : k ≤ Text.bytes t) :
    octetsBetween (utf8 (s ++ (t ++ u))) (Text.bytes s + k) (Text.bytes (s ++ t))
      = .ok ((utf8 t).drop k) := by
  have hbounds : Text.bytes s + k ≤ Text.bytes (s ++ t) ∧
      Text.bytes (s ++ t) ≤ (utf8 (s ++ (t ++ u))).length := by
    simp only [length_utf8, Text.bytes_append]
    omega
  rw [octetsBetween, if_pos hbounds, ← List.append_assoc, take_utf8, ← List.drop_drop, drop_utf8]

/-- The bytes between two characters of a text are those of the text between them. -/
theorem octetsBetween_utf8 (s t u : Text) :
    octetsBetween (utf8 (s ++ (t ++ u))) (Text.bytes s) (Text.bytes (s ++ t)) = .ok (utf8 t) :=
  octetsBetween_drop s t u (Nat.zero_le _)

theorem octetsBetween_start (s t : Text) :
    octetsBetween (utf8 (s ++ t)) 0 (Text.bytes s) = .ok (utf8 s) :=
  octetsBetween_utf8 [] s t

theorem octetsBetween_end (s t : Text) :
    octetsBetween (utf8 (s ++ t)) (Text.bytes s) (utf8 (s ++ t)).length = .ok (utf8 t) := by
  have hslice := octetsBetween_utf8 s t []
  rw [length_utf8]
  rwa [List.append_nil] at hslice

/-- Bytes of ASCII begin the bytes of a text where they begin the text. -/
theorem isPrefixOf_utf8 {w : Text} (hw : IsAsciiText w) (t : Text) :
    w.isPrefixOf (utf8 t) = w.isPrefixOf t := by
  induction w generalizing t with
  | nil => rfl
  | cons a w ih =>
      cases t with
      | nil => rfl
      | cons c t =>
          have ha := hw a List.mem_cons_self
          by_cases hc : IsAscii c
          · rw [utf8_cons, octets_of_isAscii hc, List.singleton_append, List.isPrefixOf_cons_cons,
              List.isPrefixOf_cons_cons, ih fun x hx => hw x (List.mem_cons_of_mem a hx)]
          · obtain ⟨rest, hrest⟩ := octets_eq_cons c
            have hne : a ≠ c := by
              rintro rfl
              exact hc ha
            have hlead : a ≠ lead c := fun heq => hne ((lead_eq_iff ha).mp heq.symm).symm
            rw [utf8_cons, hrest, List.cons_append, List.isPrefixOf_cons_cons,
              List.isPrefixOf_cons_cons, beq_false_of_ne hne, beq_false_of_ne hlead,
              Bool.false_and, Bool.false_and]

/-- Bytes of ASCII that do not begin at a character do not begin within it. -/
theorem isPrefixOf_drop_eq_false {a : Char} {w : Text} (hw : IsAsciiText (a :: w)) {c : Char}
    {t : Text} (h : (a :: w).isPrefixOf (c :: t) = false) {k : Nat} (hk : k < c.utf8Size) :
    (a :: w).isPrefixOf ((utf8 (c :: t)).drop k) = false := by
  by_cases hc : IsAscii c
  · rw [utf8Size_of_isAscii hc] at hk
    obtain rfl := Nat.lt_one_iff.mp hk
    rw [List.drop_zero, isPrefixOf_utf8 hw, h]
  · rw [← length_octets] at hk
    have hne : a ≠ (octets c)[k] := by
      intro heq
      exact not_isAscii_of_mem_octets hc (List.getElem_mem hk) (heq ▸ hw a List.mem_cons_self)
    rw [utf8_cons, List.drop_append_of_le_length (Nat.le_of_lt hk), List.drop_eq_getElem_cons hk,
      List.cons_append, List.isPrefixOf_cons_cons, beq_false_of_ne hne, Bool.false_and]

/-! ## Loops over the bytes of a text -/

section Characters

variable {σ ρ : Type} {left : σ → Nat} {turn : σ → Checked (σ ⊕ ρ)} {limit : Nat}

/-- A loop that passes every byte of a character from its `first` on passes the character. -/
theorem iterate_char_from (state : Nat → σ) (hleft : ∀ i, left (state i) = limit - i) (s : Text)
    (c : Char) (hlimit : Text.bytes (s ++ [c]) ≤ limit) {first : Nat} (hfirst : first ≤ c.utf8Size)
    (h : ∀ k, first ≤ k → k < c.utf8Size → turn (state (Text.bytes s + k))
      = .ok (.inl (state (Text.bytes s + k + 1)))) :
    iterate left turn (state (Text.bytes s + first))
      = iterate left turn (state (Text.bytes (s ++ [c]))) := by
  have hstop : Text.bytes (s ++ [c]) = Text.bytes s + first + (c.utf8Size - first) := by
    simp only [Text.bytes_append, Text.bytes_cons, Text.bytes_nil]
    omega
  rw [hstop] at hlimit ⊢
  refine iterate_path (fun k => state (Text.bytes s + first + k)) _ fun k hk => ⟨?_, ?_⟩
  · have hturn := h (first + k) (Nat.le_add_right _ _) (by omega)
    rwa [← Nat.add_assoc] at hturn
  · simp only [hleft]
    omega

/-- A loop that passes every byte of a character passes the character. -/
theorem iterate_char (state : Nat → σ) (hleft : ∀ i, left (state i) = limit - i) (s : Text) (c : Char)
    (hlimit : Text.bytes (s ++ [c]) ≤ limit)
    (h : ∀ k < c.utf8Size, turn (state (Text.bytes s + k))
      = .ok (.inl (state (Text.bytes s + k + 1)))) :
    iterate left turn (state (Text.bytes s)) = iterate left turn (state (Text.bytes (s ++ [c]))) :=
  iterate_char_from state hleft s c hlimit (Nat.zero_le _) fun k _ hk => h k hk

end Characters

theorem skipTurn_of_getElem? {p : Char → Bool} {bs : Octets} {i : Nat} {b : Char}
    (h : bs[i]? = some b) :
    skipTurn p bs i = .ok (if p b then .inl (i + 1) else .inr i) := by
  have hlt : i < bs.length := (List.getElem?_eq_some_iff.mp h).1
  rw [skipTurn, if_pos hlt, byteAt, h, ok_bind]
  cases p b <;> rfl

/-- Moving on over a class leaves the cursor before what is left of the text. -/
theorem skipWhile_utf8 {p : Char → Bool} (hp : IsByteClass p) (s t : Text) :
    skipWhile p (utf8 (s ++ t)) (Text.bytes s) = .ok (Text.bytes (s ++ t.takeWhile p)) := by
  induction t generalizing s with
  | nil =>
      refine iterate_done ?_
      rw [skipTurn, if_neg (by simp), List.takeWhile_nil, List.append_nil]
      rfl
  | cons c t ih =>
      by_cases hc : p c = true
      · have hskip : skipWhile p (utf8 (s ++ c :: t)) (Text.bytes s)
            = skipWhile p (utf8 (s ++ c :: t)) (Text.bytes (s ++ [c])) := by
          refine iterate_char id (fun _ => rfl) s c ?_ fun k hk => ?_
          · simp
          · obtain ⟨b, hget, hb⟩ := hp.exists_getElem? s c t hk
            rw [id, skipTurn_of_getElem? hget, hb, if_pos hc]
            rfl
        rw [hskip, List.takeWhile_cons_of_pos hc, List.append_cons s c t, ih (s ++ [c]),
          List.append_assoc, List.singleton_append]
      · rw [List.takeWhile_cons_of_neg hc, List.append_nil]
        refine iterate_done ?_
        rw [skipTurn_of_getElem? (getElem?_lead s c t), hp.lead_eq, if_neg hc]

end KeyLint.Cursor
