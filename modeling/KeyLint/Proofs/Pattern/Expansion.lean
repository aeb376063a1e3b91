import KeyLint.Proofs.Pattern.Derivation

/-!
# Expansion follows the derivation

Expanding a pattern and reading its derivation are two runs over the same text, one that keeps words
and one that keeps trees. `Reader.level` maps the state of the second to the state of the first.
A run that reads a derivation of at most `maxWords` words expands to its words
(`expandFrom_of_read`), since the words counted on the way never exceed the size of the whole
(`total_le_size`), and every run that expands reads such a derivation (`read_of_expandFrom`).
-/

namespace KeyLint.Pattern.Reader

/-! ## The level of a reader -/

/-- The words that a reader stands for, as expansion keeps them. -/
def level (r : Reader) : Level where
  done := match r.finished with | none => [] | some a => a.words
  current := match r.current with | none => [[]] | some s => s.words
  isBlank := r.current.isNone

theorem level_element_literal (r : Reader) {c : Char} (h : isLiteral c = true) :
    (r.element (.literal c h)).level = r.level.literal c := by
  obtain ⟨finished, current⟩ := r
  cases current with
  | none => rfl
  | some s => simp [level, element, Level.literal, Sequence.words, Element.words, List.map_eq_flatMap]

theorem level_group (r : Reader) (a : Alternation) :
    r.level.group a.words
      = if r.level.current.length * a.size > maxWords then .error .tooManyAlternatives
        else .ok (r.element (.group a)).level := by
  obtain ⟨finished, current⟩ := r
  rw [Level.group, a.length_words]
  cases current with
  | none => simp [level, element, product, Sequence.words, Element.words]
  | some s => simp [level, element, product, Sequence.words, Element.words]

theorem level_close (r : Reader) :
    r.level.close
      = match r.close with
        | none => .error .emptyAlternative
        | some a => if a.size > maxWords then .error .tooManyAlternatives else .ok a.words := by
  obtain ⟨finished, current⟩ := r
  cases current with
  | none => rfl
  | some s =>
      cases finished with
      | none => simp [level, close, Level.close, ← Alternation.length_words, Alternation.words]
      | some a => simp [level, close, Level.close, ← Alternation.length_words, Alternation.words]

theorem level_close_of_size_le {r : Reader} {a : Alternation} (h : r.close = some a)
    (hsize : a.size ≤ maxWords) : r.level.close = .ok a.words := by
  rw [level_close, h]
  exact if_neg (Nat.not_lt_of_le hsize)

theorem level_group_of_le {r : Reader} {a : Alternation}
    (h : r.level.current.length * a.size ≤ maxWords) :
    r.level.group a.words = .ok (r.element (.group a)).level := by
  rw [level_group]
  exact if_neg (Nat.not_lt_of_le h)

/-! ## Counting words never runs ahead -/

/-- The number of words read at one level so far. -/
def count (r : Reader) : Nat :=
  r.level.done.length + r.level.current.length

/-- The number of words of the whole pattern if the current level gives `n` words and nothing else
follows. -/
def total : List Reader → Nat → Nat
  | [], n => n
  | r :: outer, n => total outer (r.level.done.length + r.level.current.length * n)

theorem count_of_close {r : Reader} {a : Alternation} (h : r.close = some a) : a.size = r.count := by
  obtain ⟨finished, current⟩ := r
  cases current with
  | none => simp [close] at h
  | some s =>
      simp only [close, Option.map_some, Option.some.injEq] at h
      subst h
      cases finished with
      | none => simp [count, level, Alternation.size, Sequence.length_words]
      | some a => simp [count, level, Alternation.size, Sequence.length_words,
          Alternation.length_words]

theorem length_current_pos (r : Reader) : 0 < r.level.current.length := by
  obtain ⟨finished, current⟩ := r
  cases current with
  | none => exact Nat.one_pos
  | some s => simpa [level, Sequence.length_words] using s.size_pos

theorem count_element_literal (r : Reader) {c : Char} (h : isLiteral c = true) :
    (r.element (.literal c h)).count = r.count := by
  simp [count, level_element_literal, Level.literal]

theorem count_element_group (r : Reader) (a : Alternation) :
    (r.element (.group a)).count = r.level.done.length + r.level.current.length * a.size := by
  obtain ⟨finished, current⟩ := r
  cases current <;>
    simp [count, level, element, Sequence.length_words, Sequence.size, Element.size]

theorem total_mono {outer : List Reader} {m n : Nat} (h : m ≤ n) : total outer m ≤ total outer n := by
  induction outer generalizing m n with
  | nil => exact h
  | cons r outer ih => exact ih (Nat.add_le_add_left (Nat.mul_le_mul_left _ h) _)

theorem self_le_total (outer : List Reader) (n : Nat) : n ≤ total outer n := by
  induction outer generalizing n with
  | nil => exact Nat.le_refl n
  | cons r outer ih =>
      calc n ≤ r.level.current.length * n := Nat.le_mul_of_pos_left n r.length_current_pos
        _ ≤ r.level.done.length + r.level.current.length * n := Nat.le_add_left _ _
        _ ≤ total outer _ := ih _

/-- What is counted on the way is at most the size of the derivation that comes out. -/
theorem total_le_size {outer : List Reader} {r : Reader} {t : Text} {d : Alternation}
    (h : read outer r t = some d) : total outer r.count ≤ d.size := by
  induction t generalizing outer r with
  | nil =>
      cases outer with
      | nil => exact Nat.le_of_eq (count_of_close h).symm
      | cons parent outer => simp [read] at h
  | cons c cs ih =>
      rw [read] at h
      split at h
      · -- A group that is opened counts for one word until it has more.
        have hd := ih h
        rwa [total, show count {} = 1 from rfl, Nat.mul_one] at hd
      split at h
      · split at h
        · cases h
        · next a ha =>
            have hcount : r.count ≤ count { finished := some a } := by
              simp [count_of_close ha, count, level, Alternation.length_words]
            exact Nat.le_trans (total_mono hcount) (ih h)
      split at h
      · split at h
        · cases h
        · next a ha =>
            split at h
            · cases h
            · next parent outer =>
                have hd := ih h
                rwa [count_element_group, count_of_close ha] at hd
      split at h
      · next hlit =>
          have hd := ih h
          rwa [count_element_literal] at hd
      · cases h

theorem size_le_of_close {outer : List Reader} {r : Reader} {a : Alternation} {n : Nat}
    (hclose : r.close = some a) (h : total outer r.count ≤ n) : a.size ≤ n := by
  rw [count_of_close hclose]
  exact Nat.le_trans (self_le_total outer _) h

/-! ## The two runs agree -/

/-- A derivation that is read and is not too large is expanded to its words. -/
theorem expandFrom_of_read {outer : List Reader} {r : Reader} {t : Text} {d : Alternation}
    (h : read outer r t = some d) (hsize : d.size ≤ maxWords) :
    expandFrom (outer.map level) r.level t = .ok d.words := by
  induction t generalizing outer r with
  | nil =>
      cases outer with
      | nil =>
          rw [read] at h
          exact level_close_of_size_le h hsize
      | cons parent outer => simp [read] at h
  | cons c cs ih =>
      have hcount := total_le_size h
      rw [read] at h
      rw [expandFrom]
      split at h
      · next hc =>
          rw [if_pos hc]
          exact ih h
      split at h
      · next hpar hc =>
          split at h
          · cases h
          · next a ha =>
              have ha_le := Nat.le_trans (size_le_of_close ha hcount) hsize
              rw [if_neg hpar, if_pos hc, level_close_of_size_le ha ha_le]
              exact ih h
      split at h
      · next hpar hbar hc =>
          split at h
          · cases h
          · next a ha =>
              split at h
              · cases h
              · next parent outer =>
                  have ha_le := Nat.le_trans (size_le_of_close ha hcount) hsize
                  have hgroup : parent.level.current.length * a.size ≤ maxWords := by
                    have hd := Nat.le_trans (self_le_total outer _) (total_le_size h)
                    rw [count_element_group] at hd
                    omega
                  rw [if_neg hpar, if_neg hbar, if_pos hc, level_close_of_size_le ha ha_le]
                  simp only [List.map_cons, level_group_of_le hgroup]
                  exact ih h
      split at h
      · next hpar hbar hend hlit =>
          rw [if_neg hpar, if_neg hbar, if_neg hend, ← level_element_literal r hlit]
          exact ih h
      · cases h

theorem isLiteral_of_isAllowed {c : Char} (h : isAllowed c = true) (hpar : c ≠ '(') (hbar : c ≠ '|')
    (hend : c ≠ ')') : isLiteral c = true := by
  simpa [isAllowed, hpar, hbar, hend] using h

theorem close_of_level_close {r : Reader} {ws : List Text} (h : r.level.close = .ok ws) :
    ∃ a, r.close = some a ∧ a.words = ws ∧ a.size ≤ maxWords := by
  rw [level_close] at h
  split at h
  · cases h
  · next a ha =>
      split at h
      · cases h
      · next hle =>
          cases h
          exact ⟨a, ha, rfl, Nat.le_of_not_lt hle⟩

/-- An expansion that succeeds gives the words of a derivation that is read. -/
theorem read_of_expandFrom {outer : List Reader} {r : Reader} {t : Text} {ws : List Text}
    (hallowed : ∀ c ∈ t, isAllowed c = true)
    (h : expandFrom (outer.map level) r.level t = .ok ws) :
    ∃ d, read outer r t = some d ∧ d.words = ws ∧ d.size ≤ maxWords := by
  induction t generalizing outer r with
  | nil =>
      cases outer with
      | nil => exact close_of_level_close h
      | cons parent outer => simp [expandFrom] at h
  | cons c cs ih =>
      have hcs : ∀ c ∈ cs, isAllowed c = true := fun x hx => hallowed x (List.mem_cons_of_mem c hx)
      rw [expandFrom] at h
      rw [read]
      split at h
      · next hc =>
          rw [if_pos hc]
          exact ih hcs h
      split at h
      · next hpar hc =>
          rw [if_neg hpar, if_pos hc]
          split at h
          · cases h
          · next words hwords =>
              obtain ⟨a, ha, rfl, _⟩ := close_of_level_close hwords
              rw [ha]
              exact ih hcs h
      split at h
      · next hpar hbar hc =>
          rw [if_neg hpar, if_neg hbar, if_pos hc]
          split at h
          · cases h
          · next words hwords =>
              obtain ⟨a, ha, rfl, _⟩ := close_of_level_close hwords
              cases outer with
              | nil => cases h
              | cons parent outer =>
                  simp only [List.map_cons, level_group] at h
                  rw [ha]
                  by_cases hsize : parent.level.current.length * a.size > maxWords
                  · simp [hsize] at h
                  · simp only [hsize, if_false] at h
                    exact ih hcs h
      · next hpar hbar hend =>
          have hlit := isLiteral_of_isAllowed (hallowed c List.mem_cons_self) hpar hbar hend
          rw [if_neg hpar, if_neg hbar, if_neg hend, dif_pos hlit]
          rw [← level_element_literal r hlit] at h
          exact ih hcs h

end KeyLint.Pattern.Reader
