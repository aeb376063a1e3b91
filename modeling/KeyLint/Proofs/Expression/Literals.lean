import KeyLint.Expression.Quoted
import KeyLint.Proofs.Text

/-!
# Expressions that are one string literal

The inside of a string literal is made of characters that are neither its quote nor a backslash and of
characters behind a backslash. An expression is read as one literal if it is one, or if all that it
lacks is the closing quote: the last quote is taken for it without regard to a backslash before it.
-/

namespace KeyLint.Expression

/-! ## What a literal is -/

/-- What may stand between two quotes of a kind. -/
inductive IsInside (quote : Char) : Text → Prop
  | nil : IsInside quote []
  | plain {c : Char} {t : Text} (hslash : c ≠ '\\') (hquote : c ≠ quote) (ht : IsInside quote t) :
      IsInside quote (c :: t)
  | escaped {c : Char} {t : Text} (ht : IsInside quote t) : IsInside quote ('\\' :: c :: t)

/-- A source is one string literal with `inner` between its quotes, blanks around it aside. -/
def IsLiteral (source inner : Text) : Prop :=
  ∃ quote, isQuote quote = true ∧ Text.trim source = quote :: (inner ++ [quote]) ∧
    IsInside quote inner

/-- A source begins one string literal and ends with a quote that a backslash takes, so that the
literal is not closed; `inner` is what stands between its two outer quotes. -/
def IsUnclosed (source inner : Text) : Prop :=
  ∃ quote s, isQuote quote = true ∧ Text.trim source = quote :: (inner ++ [quote]) ∧
    IsInside quote s ∧ inner = s ++ ['\\']

theorem IsInside.tail {quote c : Char} {t : Text} (h : IsInside quote (c :: t)) (hc : c ≠ '\\') :
    IsInside quote t := by
  cases h with
  | plain _ _ ht => exact ht
  | escaped => exact absurd rfl hc

theorem IsInside.tail_of_escaped {quote c : Char} {t : Text} (h : IsInside quote ('\\' :: c :: t)) :
    IsInside quote t := by
  cases h with
  | plain hslash => exact absurd rfl hslash
  | escaped ht => exact ht

theorem IsInside.not_append_backslash {quote : Char} {t : Text} (h : IsInside quote t) :
    ¬ IsInside quote (t ++ ['\\']) := by
  intro happend
  induction h with
  | nil =>
      cases happend with
      | plain hslash => exact hslash rfl
  | plain hslash _ _ ih => exact ih (happend.tail hslash)
  | escaped _ ih => exact ih happend.tail_of_escaped

theorem IsUnclosed.not_isLiteral {source inner : Text} (h : IsUnclosed source inner) :
    ¬ IsLiteral source inner := by
  rintro ⟨quote, _, hsource, hinner⟩
  obtain ⟨quote', s, _, hsource', hs, rfl⟩ := h
  obtain rfl : quote = quote' := by
    rw [hsource] at hsource'
    exact (List.cons.inj hsource').1
  exact hs.not_append_backslash hinner

/-! ## The inside of a literal -/

theorem IsInside.isFreeOf_append {quote : Char} {t : Text} (h : IsInside quote t) (s : Text) :
    isFreeOf quote false (t ++ s) = isFreeOf quote false s := by
  induction h with
  | nil => rfl
  | plain hslash hquote _ ih => rw [List.cons_append, isFreeOf, if_neg hslash, if_neg hquote, ih]
  | escaped _ ih => rw [List.cons_append, List.cons_append, isFreeOf, if_pos rfl, isFreeOf, ih]

/-- Nothing stands between two quotes that does not belong there, a backslash at the end aside. -/
def IsInsideOrOpen (quote : Char) (t : Text) : Prop :=
  IsInside quote t ∨ ∃ s, IsInside quote s ∧ t = s ++ ['\\']

theorem IsInsideOrOpen.plain {quote c : Char} {t : Text} (hslash : c ≠ '\\') (hquote : c ≠ quote)
    (h : IsInsideOrOpen quote t) : IsInsideOrOpen quote (c :: t) := by
  rcases h with ht | ⟨s, hs, rfl⟩
  · exact .inl (.plain hslash hquote ht)
  · exact .inr ⟨c :: s, .plain hslash hquote hs, rfl⟩

theorem IsInsideOrOpen.escaped {quote : Char} {t : Text} (c : Char) (h : IsInsideOrOpen quote t) :
    IsInsideOrOpen quote ('\\' :: c :: t) := by
  rcases h with ht | ⟨s, hs, rfl⟩
  · exact .inl (.escaped ht)
  · exact .inr ⟨'\\' :: c :: s, .escaped hs, rfl⟩

/-- A backslash that was just read is put back in front of what follows it. -/
theorem isInsideOrOpen_of_isFreeOf {quote : Char} {escaped : Bool} {t : Text}
    (h : isFreeOf quote escaped t = true) :
    IsInsideOrOpen quote (if escaped then '\\' :: t else t) := by
  fun_induction isFreeOf quote escaped t with
  | case1 escaped =>
      cases escaped with
      | false => exact .inl .nil
      | true => exact .inr ⟨[], .nil, rfl⟩
  | case2 c t ih => exact (ih h).escaped c
  | case3 t ih => exact ih h
  | case4 => cases h
  | case5 c t hslash hquote ih => exact (ih h).plain hslash hquote

theorem isFreeOf_iff {quote : Char} {t : Text} :
    isFreeOf quote false t = true ↔ IsInsideOrOpen quote t := by
  constructor
  · exact fun h => isInsideOrOpen_of_isFreeOf h
  · rintro (ht | ⟨s, hs, rfl⟩)
    · rw [← List.append_nil t, ht.isFreeOf_append]
      rfl
    · rw [hs.isFreeOf_append]
      rfl

/-! ## Reading a literal -/

theorem stringLiteral?_eq_some_iff {source inner : Text} :
    stringLiteral? source = some inner ↔
      ∃ quote, isQuote quote = true ∧ Text.trim source = quote :: (inner ++ [quote]) ∧
        isFreeOf quote false inner = true := by
  rw [stringLiteral?]
  split
  · next hnil => simp [hnil]
  · next quote rest htrim =>
      simp only [htrim, List.cons.injEq]
      constructor
      · intro h
        split at h
        · next hquote =>
          split at h
          · next found hbefore =>
            split at h
            · next hfree =>
              cases h
              exact ⟨quote, hquote, ⟨rfl, Text.before?_eq_some_iff.mp hbefore⟩, hfree⟩
            · cases h
          · cases h
        · cases h
      · rintro ⟨_, hquote, ⟨rfl, rfl⟩, hfree⟩
        rw [if_pos hquote, Text.before?_append]
        simp only [hfree, if_true]

/-- What is read as one string literal is one, or would be one if its last quote were not taken by a
backslash; so literals are recognized exactly in the sources that do not end so. -/
theorem stringLiteral_or_unclosed (source : Text) :
    (∀ inner, stringLiteral? source = some inner ↔
      IsLiteral source inner ∨ IsUnclosed source inner) ∧
    (∀ inner, IsUnclosed source inner → ¬ IsLiteral source inner) ∧
    ((∀ inner, stringLiteral? source = some inner ↔ IsLiteral source inner) ↔
      ∀ inner, ¬ IsUnclosed source inner) := by
  have hread : ∀ inner, stringLiteral? source = some inner ↔
      IsLiteral source inner ∨ IsUnclosed source inner := by
    intro inner
    rw [stringLiteral?_eq_some_iff]
    constructor
    · rintro ⟨quote, hquote, hsource, hfree⟩
      rcases isFreeOf_iff.mp hfree with hinner | ⟨s, hs, hinner⟩
      · exact .inl ⟨quote, hquote, hsource, hinner⟩
      · exact .inr ⟨quote, s, hquote, hsource, hs, hinner⟩
    · rintro (⟨quote, hquote, hsource, hinner⟩ | ⟨quote, s, hquote, hsource, hs, hinner⟩)
      · exact ⟨quote, hquote, hsource, isFreeOf_iff.mpr (.inl hinner)⟩
      · exact ⟨quote, hquote, hsource, isFreeOf_iff.mpr (.inr ⟨s, hs, hinner⟩)⟩
  refine ⟨hread, fun _ => IsUnclosed.not_isLiteral, ?_, ?_⟩
  · intro hexact inner hunclosed
    exact hunclosed.not_isLiteral ((hexact inner).mp ((hread inner).mpr (.inr hunclosed)))
  · intro hclosed inner
    rw [hread inner, or_iff_left (hclosed inner)]

/-- The quote at the end of `'\'` belongs to the character behind the backslash, and yet the
backslash is read as a literal. -/
theorem not_isLiteral_of_backslash :
    ¬ ∀ source inner, stringLiteral? source = some inner ↔ IsLiteral source inner := by
  intro hexact
  obtain ⟨quote, _, hsource, hinner⟩ := (hexact "'\\'".toList ['\\']).mp (by decide)
  cases hinner with
  | plain hslash => exact hslash rfl

end KeyLint.Expression
