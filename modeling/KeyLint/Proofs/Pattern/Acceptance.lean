import KeyLint.Proofs.Pattern.Expansion
import KeyLint.Proofs.Text

/-!
# Which patterns are accepted

A pattern is accepted if and only if it is short enough, has a derivation, and this derivation is
not too large; its words are then those of the derivation. The faults of shape that are looked for
first (runaway spellings, backreferences, foreign characters, parentheses) never concern a text that
has a derivation.
-/

namespace KeyLint.Pattern

/-! ## Shape -/

theorem isBalanced_cons_of_ne {depth : Nat} {c : Char} (cs : Text) (hopen : c ≠ '(')
    (hclose : c ≠ ')') : isBalanced depth (c :: cs) = isBalanced depth cs := by
  rw [isBalanced.eq_5]
  · exact hopen
  · exact fun _ h => absurd h hclose
  · exact fun _ _ h => absurd h hclose

/-- A text that is read holds only characters of patterns, and its parentheses match. -/
theorem shape_of_read {outer : List Reader} {r : Reader} {t : Text} {d : Alternation}
    (h : Reader.read outer r t = some d) :
    (∀ c ∈ t, isAllowed c = true) ∧ isBalanced outer.length t = true := by
  induction t generalizing outer r with
  | nil =>
      cases outer with
      | nil => exact ⟨by simp, rfl⟩
      | cons parent outer => simp [Reader.read] at h
  | cons c cs ih =>
      rw [Reader.read] at h
      split at h
      · next hc =>
          subst hc
          obtain ⟨hallowed, hbalanced⟩ := ih h
          exact ⟨List.forall_mem_cons.mpr ⟨rfl, hallowed⟩, by simpa [isBalanced] using hbalanced⟩
      split at h
      · next hc =>
          subst hc
          split at h
          · cases h
          · obtain ⟨hallowed, hbalanced⟩ := ih h
            exact ⟨List.forall_mem_cons.mpr ⟨rfl, hallowed⟩,
              by rwa [isBalanced_cons_of_ne cs (by decide) (by decide)]⟩
      split at h
      · next hc =>
          subst hc
          split at h
          · cases h
          · split at h
            · cases h
            · obtain ⟨hallowed, hbalanced⟩ := ih h
              exact ⟨List.forall_mem_cons.mpr ⟨rfl, hallowed⟩, by simpa [isBalanced] using hbalanced⟩
      · next hopen hbar hclose =>
          split at h
          · next hlit =>
              obtain ⟨hallowed, hbalanced⟩ := ih h
              have hc : isAllowed c = true := by simp [isAllowed, hlit]
              exact ⟨List.forall_mem_cons.mpr ⟨hc, hallowed⟩,
                by rwa [isBalanced_cons_of_ne cs hopen hclose]⟩
          · cases h

theorem not_occursIn_of_allowed {source : Text} (h : ∀ c ∈ source, isAllowed c = true)
    {spelling : Text × RunawayShape} (hmem : spelling ∈ runawaySpellings) :
    ¬ Text.occursIn spelling.1 source = true := by
  intro hoccurs
  have hforeign : (runawaySpellings.all fun s => s.1.any fun c => !isAllowed c) = true := by rfl
  obtain ⟨c, hc, hfalse⟩ := List.any_eq_true.mp (List.all_eq_true.mp hforeign spelling hmem)
  have htrue := h c ((Text.occursIn_iff_infix.mp hoccurs).subset hc)
  simp [htrue] at hfalse

theorem not_hasBackreference_of_allowed {source : Text} (h : ∀ c ∈ source, isAllowed c = true) :
    hasBackreference source = false := by
  fun_induction hasBackreference source with
  | case1 d cs _ => exact absurd (h '\\' List.mem_cons_self) (by decide)
  | case2 c cs _ ih => exact ih fun x hx => h x (List.mem_cons_of_mem _ hx)
  | case3 => rfl

/-- A pattern has no fault of shape if and only if it is short enough, holds only characters of
patterns, and its parentheses match: the other checks only name the fault. -/
theorem shapeError?_eq_none_iff {source : Text} :
    shapeError? source = none ↔
      source.length ≤ maxLength ∧ (∀ c ∈ source, isAllowed c = true) ∧
        isBalanced 0 source = true := by
  constructor
  · intro h
    unfold shapeError? at h
    split at h
    · cases h
    next hlength =>
    split at h
    · cases h
    split at h
    · cases h
    split at h
    · cases h
    next hfind =>
    split at h
    · next hbalanced =>
        rw [List.find?_eq_none] at hfind
        exact ⟨Nat.le_of_not_lt hlength, fun c hc => by simpa using hfind c hc, hbalanced⟩
    · cases h
  · rintro ⟨hlength, hallowed, hbalanced⟩
    have hchar : (source.find? fun c => !isAllowed c) = none :=
      List.find?_eq_none.mpr fun c hc => by simp [hallowed c hc]
    unfold shapeError?
    rw [if_neg (Nat.not_lt_of_le hlength)]
    split
    · next hspelling =>
        have hoccurs := List.find?_some hspelling
        exact absurd hoccurs (not_occursIn_of_allowed hallowed (List.mem_of_find?_eq_some hspelling))
    · rw [hchar, not_hasBackreference_of_allowed hallowed]
      simp [hbalanced]

/-! ## Acceptance -/

theorem parse_text {d : Alternation} (hlength : d.text.length ≤ maxLength)
    (hsize : d.size ≤ maxWords) : parse d.text = .ok ⟨d.text, d.words⟩ := by
  have hread := Reader.read_text d
  have hshape := shapeError?_eq_none_iff.mpr ⟨hlength, shape_of_read hread⟩
  have hexpand : expandFrom [] {} d.text = .ok d.words := Reader.expandFrom_of_read hread hsize
  simp only [parse, hshape, hexpand]

theorem derivation_of_parse {source : Text} {p : Pattern} (h : parse source = .ok p) :
    source.length ≤ maxLength ∧ p.source = source ∧
      ∃ d : Alternation, d.text = source ∧ d.size ≤ maxWords ∧ p.words = d.words := by
  unfold parse at h
  split at h
  · cases h
  · next hshape =>
      split at h
      · cases h
      · next words hexpand =>
          cases h
          obtain ⟨hlength, hallowed, _⟩ := shapeError?_eq_none_iff.mp hshape
          obtain ⟨d, hread, hwords, hsize⟩ :
              ∃ d, Reader.read [] {} source = some d ∧ d.words = words ∧ d.size ≤ maxWords :=
            Reader.read_of_expandFrom hallowed hexpand
          exact ⟨hlength, rfl, d, Reader.text_of_read hread, hsize, hwords.symm⟩

theorem occursIn_iff {p : Pattern} {t : Text} :
    p.occursIn t = true ↔ ∃ w ∈ p.words, w <:+: t := by
  simp [occursIn, Text.occursIn_iff_infix]

/-- A pattern is accepted exactly if it has at most 1000 characters and a derivation with at most 256
words. It stands for the words of its derivation, none of which is empty, and occurs in a text if one
of them does. -/
theorem parse_ok_iff_derivation (source : Text) :
    ((∃ p, parse source = .ok p) ↔
      source.length ≤ 1000 ∧ ∃ d : Alternation, d.text = source ∧ d.size ≤ 256) ∧
    ∀ p, parse source = .ok p → ∀ d : Alternation, d.text = source →
      p.source = source ∧ p.words = d.words ∧ (∀ w ∈ p.words, w ≠ []) ∧
        ∀ t, p.occursIn t = true ↔ ∃ w ∈ d.words, w <:+: t := by
  refine ⟨⟨?_, ?_⟩, ?_⟩
  · rintro ⟨p, hp⟩
    obtain ⟨hlength, _, d, htext, hsize, _⟩ := derivation_of_parse hp
    exact ⟨hlength, d, htext, hsize⟩
  · rintro ⟨hlength, d, rfl, hsize⟩
    exact ⟨_, parse_text hlength hsize⟩
  · intro p hp d htext
    obtain ⟨_, hsource, d', htext', _, hwords⟩ := derivation_of_parse hp
    obtain rfl : d' = d := Alternation.eq_of_text_eq (htext'.trans htext.symm)
    refine ⟨hsource, hwords, ?_, ?_⟩
    · rw [hwords]
      exact d'.ne_nil_of_mem_words
    · intro t
      rw [occursIn_iff, hwords]

/-- `a(b|c)` stands for `ab` and `ac`. -/
theorem words_of_group_pattern :
    ∃ p, parse "a(b|c)".toList = .ok p ∧ p.words = ["ab".toList, "ac".toList] := by
  have hparse : parse "a(b|c)".toList = .ok ⟨"a(b|c)".toList, ["ab".toList, "ac".toList]⟩ := by rfl
  have hwords := (parse_ok_iff_derivation _).2 _ hparse
    (.single (.snoc (.single (.literal 'a' rfl))
      (.group (.snoc (.single (.single (.literal 'b' rfl))) (.single (.literal 'c' rfl)))))) rfl
  exact ⟨_, hparse, hwords.2.1⟩

end KeyLint.Pattern
