import KeyLint.Pattern

/-!
# Derivations of a pattern

The grammar of patterns as trees. An alternation is one or more sequences with bars between them, a
sequence is one or more elements, and an element is a literal character or an alternation in
parentheses. A derivation has a text, the words it stands for, and a size, which is the number of
its words with repetitions.

`Reader.read` builds the derivation of a text. It finds every derivation (`read_text`) and finds
only derivations of the text that it is given (`text_of_read`), so a text has at most one.
-/

namespace KeyLint.Pattern

mutual

/-- An element of a sequence. -/
inductive Element where
  | literal (c : Char) (h : isLiteral c = true)
  | group (a : Alternation)

/-- One or more elements. -/
inductive Sequence where
  | single (e : Element)
  | snoc (s : Sequence) (e : Element)

/-- One or more sequences. -/
inductive Alternation where
  | single (s : Sequence)
  | snoc (a : Alternation) (s : Sequence)

end

/-! ## Text, size and words -/

mutual

def Element.text : Element → Text
  | .literal c _ => [c]
  | .group a => '(' :: (a.text ++ [')'])

def Sequence.text : Sequence → Text
  | .single e => e.text
  | .snoc s e => s.text ++ e.text

def Alternation.text : Alternation → Text
  | .single s => s.text
  | .snoc a s => a.text ++ '|' :: s.text

end

mutual

def Element.size : Element → Nat
  | .literal _ _ => 1
  | .group a => a.size

/-- The size of a sequence: the product over its elements. -/
def Sequence.size : Sequence → Nat
  | .single e => e.size
  | .snoc s e => s.size * e.size

/-- The size of an alternation: the sum over its sequences. -/
def Alternation.size : Alternation → Nat
  | .single s => s.size
  | .snoc a s => a.size + s.size

end

mutual

def Element.words : Element → List Text
  | .literal c _ => [[c]]
  | .group a => a.words

/-- The words of a sequence: one word of each element, the leftmost element varying slowest. -/
def Sequence.words : Sequence → List Text
  | .single e => e.words
  | .snoc s e => s.words.flatMap fun head => e.words.map fun tail => head ++ tail

/-- The words of an alternation: those of its sequences from left to right. -/
def Alternation.words : Alternation → List Text
  | .single s => s.words
  | .snoc a s => a.words ++ s.words

end

theorem length_product (heads tails : List Text) :
    (product heads tails).length = heads.length * tails.length := by
  simp [product, List.map_const']

mutual

theorem Element.length_words : (e : Element) → e.words.length = e.size
  | .literal _ _ => rfl
  | .group a => by simpa only [Element.words, Element.size] using a.length_words

theorem Sequence.length_words : (s : Sequence) → s.words.length = s.size
  | .single e => by simpa only [Sequence.words, Sequence.size] using e.length_words
  | .snoc s e => by
      rw [Sequence.size, ← s.length_words, ← e.length_words]
      exact length_product _ _

theorem Alternation.length_words : (a : Alternation) → a.words.length = a.size
  | .single s => by simpa only [Alternation.words, Alternation.size] using s.length_words
  | .snoc a s => by
      rw [Alternation.words, Alternation.size, List.length_append, a.length_words, s.length_words]

end

mutual

theorem Element.size_pos : (e : Element) → 0 < e.size
  | .literal _ _ => Nat.one_pos
  | .group a => a.size_pos

theorem Sequence.size_pos : (s : Sequence) → 0 < s.size
  | .single e => e.size_pos
  | .snoc s e => Nat.mul_pos s.size_pos e.size_pos

theorem Alternation.size_pos : (a : Alternation) → 0 < a.size
  | .single s => s.size_pos
  | .snoc a _ => Nat.add_pos_left a.size_pos _

end

mutual

theorem Element.ne_nil_of_mem_words : (e : Element) → ∀ w ∈ e.words, w ≠ []
  | .literal c _, w, hw => by
      rw [Element.words, List.mem_singleton] at hw
      simp [hw]
  | .group a, w, hw => a.ne_nil_of_mem_words w hw

theorem Sequence.ne_nil_of_mem_words : (s : Sequence) → ∀ w ∈ s.words, w ≠ []
  | .single e, w, hw => e.ne_nil_of_mem_words w hw
  | .snoc s e, w, hw => by
      simp only [Sequence.words, List.mem_flatMap, List.mem_map] at hw
      obtain ⟨head, hhead, tail, _, rfl⟩ := hw
      exact List.append_ne_nil_of_left_ne_nil (s.ne_nil_of_mem_words head hhead) _

theorem Alternation.ne_nil_of_mem_words : (a : Alternation) → ∀ w ∈ a.words, w ≠ []
  | .single s, w, hw => s.ne_nil_of_mem_words w hw
  | .snoc a s, w, hw => by
      rw [Alternation.words, List.mem_append] at hw
      rcases hw with hw | hw
      · exact a.ne_nil_of_mem_words w hw
      · exact s.ne_nil_of_mem_words w hw

end

mutual

theorem Element.isLiteral_of_mem_words : (e : Element) → ∀ w ∈ e.words, ∀ c ∈ w, isLiteral c = true
  | .literal c h, w, hw, d, hd => by
      rw [Element.words, List.mem_singleton] at hw
      rw [hw, List.mem_singleton] at hd
      rwa [hd]
  | .group a, w, hw, d, hd => a.isLiteral_of_mem_words w hw d hd

theorem Sequence.isLiteral_of_mem_words :
    (s : Sequence) → ∀ w ∈ s.words, ∀ c ∈ w, isLiteral c = true
  | .single e, w, hw, d, hd => e.isLiteral_of_mem_words w hw d hd
  | .snoc s e, w, hw, d, hd => by
      simp only [Sequence.words, List.mem_flatMap, List.mem_map] at hw
      obtain ⟨head, hhead, tail, htail, rfl⟩ := hw
      rcases List.mem_append.mp hd with hd | hd
      · exact s.isLiteral_of_mem_words head hhead d hd
      · exact e.isLiteral_of_mem_words tail htail d hd

theorem Alternation.isLiteral_of_mem_words :
    (a : Alternation) → ∀ w ∈ a.words, ∀ c ∈ w, isLiteral c = true
  | .single s, w, hw, d, hd => s.isLiteral_of_mem_words w hw d hd
  | .snoc a s, w, hw, d, hd => by
      rw [Alternation.words, List.mem_append] at hw
      rcases hw with hw | hw
      · exact a.isLiteral_of_mem_words w hw d hd
      · exact s.isLiteral_of_mem_words w hw d hd

end

/-! ## Reading a derivation -/

/-- What has been read at one level of parentheses: the finished sequences and the elements of the
sequence being read. -/
structure Reader where
  finished : Option Alternation := none
  current : Option Sequence := none

namespace Reader

def element (r : Reader) (e : Element) : Reader :=
  { r with current := some (match r.current with | none => .single e | some s => .snoc s e) }

/-- The alternation read at a level once its last sequence ends; nothing if that one is empty. -/
def close (r : Reader) : Option Alternation :=
  r.current.map fun s => match r.finished with | none => .single s | some a => .snoc a s

/-- The derivation of the rest of a pattern, read by `r` inside the levels `outer`. -/
def read : (outer : List Reader) → (r : Reader) → Text → Option Alternation
  | [], r, [] => r.close
  | _ :: _, _, [] => none
  | outer, r, c :: cs =>
    if c = '(' then read (r :: outer) {} cs
    else if c = '|' then
      match r.close with
      | none => none
      | some a => read outer { finished := some a } cs
    else if c = ')' then
      match r.close with
      | none => none
      | some a =>
        match outer with
        | [] => none
        | parent :: outer => read outer (parent.element (.group a)) cs
    else if h : isLiteral c = true then read outer (r.element (.literal c h)) cs
    else none

/-- What has been read at one level, as it is written. -/
def text (r : Reader) : Text :=
  (match r.finished with | none => [] | some a => a.text ++ ['|'])
    ++ (match r.current with | none => [] | some s => s.text)

/-- What has been read at the levels around the current one, as it is written. -/
def outerText : List Reader → Text
  | [] => []
  | r :: outer => outerText outer ++ r.text ++ ['(']

@[simp] theorem text_element (r : Reader) (e : Element) : (r.element e).text = r.text ++ e.text := by
  cases hr : r.current <;> simp [element, text, hr, Sequence.text]

theorem text_of_close {r : Reader} {a : Alternation} (h : r.close = some a) : a.text = r.text := by
  obtain ⟨finished, current⟩ := r
  cases current with
  | none => simp [close] at h
  | some s =>
      simp only [close, Option.map_some, Option.some.injEq] at h
      subst h
      cases finished <;> simp [text, Alternation.text]

/-- A derivation that is read is one of the text it was read from. -/
theorem text_of_read {outer : List Reader} {r : Reader} {t : Text} {d : Alternation}
    (h : read outer r t = some d) : d.text = outerText outer ++ r.text ++ t := by
  induction t generalizing outer r with
  | nil =>
      cases outer with
      | nil => simpa [outerText, read] using text_of_close h
      | cons parent outer => simp [read] at h
  | cons c cs ih =>
      rw [read] at h
      split at h
      · next hc => simpa [outerText, text, hc] using ih h
      split at h
      · next hc =>
          split at h
          · cases h
          · next a ha =>
              have hd := ih h
              simp only [text, text_of_close ha] at hd
              simpa [text, hc] using hd
      split at h
      · next hc =>
          split at h
          · cases h
          · next a ha =>
              split at h
              · cases h
              · next parent outer =>
                  simpa [outerText, Element.text, text_of_close ha, hc] using ih h
      split at h
      · next hlit => simpa [Element.text] using ih h
      · cases h

mutual

theorem read_element (outer : List Reader) (r : Reader) (rest : Text) :
    (e : Element) → read outer r (e.text ++ rest) = read outer (r.element e) rest
  | .literal c h => by
      have hpar : c ≠ '(' := by rintro rfl; exact absurd h (by decide)
      have hbar : c ≠ '|' := by rintro rfl; exact absurd h (by decide)
      have hend : c ≠ ')' := by rintro rfl; exact absurd h (by decide)
      simp [Element.text, read, hpar, hbar, hend, h]
  | .group a => by
      obtain ⟨r', hclose, hread⟩ := read_alternation (r :: outer) (')' :: rest) a
      simp only [Element.text, List.cons_append, List.append_assoc, List.nil_append]
      rw [read, if_pos rfl, hread, read]
      simp [hclose]

theorem read_sequence (outer : List Reader) (finished : Option Alternation) (rest : Text) :
    (s : Sequence) → read outer { finished } (s.text ++ rest) = read outer ⟨finished, some s⟩ rest
  | .single e => by
      rw [Sequence.text, read_element]
      rfl
  | .snoc s e => by
      rw [Sequence.text, List.append_assoc, read_sequence outer finished _ s, read_element]
      rfl

theorem read_alternation (outer : List Reader) (rest : Text) :
    (a : Alternation) → ∃ r : Reader, r.close = some a ∧
      read outer {} (a.text ++ rest) = read outer r rest
  | .single s => ⟨⟨none, some s⟩, rfl, read_sequence outer none rest s⟩
  | .snoc a s => by
      obtain ⟨r, hclose, hread⟩ := read_alternation outer ('|' :: (s.text ++ rest)) a
      refine ⟨⟨some a, some s⟩, rfl, ?_⟩
      rw [Alternation.text, List.append_assoc, List.cons_append, hread, read]
      simp [hclose, read_sequence]

end

/-- Every derivation is read back from its text. -/
theorem read_text (d : Alternation) : read [] {} d.text = some d := by
  obtain ⟨r, hclose, hread⟩ := read_alternation [] [] d
  rw [List.append_nil] at hread
  rw [hread, read, hclose]

end Reader

/-- A text has at most one derivation. -/
theorem Alternation.eq_of_text_eq {d d' : Alternation} (h : d.text = d'.text) : d = d' := by
  have hread := Reader.read_text d
  rw [h, Reader.read_text d'] at hread
  exact (Option.some.inj hread).symm

end KeyLint.Pattern
