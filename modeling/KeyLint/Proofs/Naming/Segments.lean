import KeyLint.Key
import KeyLint.Proofs.Text

/-!
# The naming convention by segments

A key is looked at twice: its beginning is compared with the prefix of the file character by
character, and its length is counted in segments between dots. Here the whole convention is said of
segments. `Follows` is a key that keeps it and `Breaks` one that does not, together with what is
reported; a key that is not ignored does exactly one of the two (`fault_by_segments`).
-/

namespace KeyLint.Key

/-! ## The beginning of a key -/

theorem segments_eq_splitOn (key : Text) : segments key = List.splitOn '.' key :=
  Text.splitOn_eq_splitOn '.' key

theorem isUnder_iff {keyPrefix key : Text} :
    isUnder keyPrefix key = true ↔ keyPrefix = key ∨ keyPrefix ++ ['.'] <+: key := by
  cases hafter : Text.after? keyPrefix key with
  | none =>
      have hno := Text.after?_eq_none_iff.mp hafter
      simp only [isUnder, hafter, Bool.false_eq_true, false_iff, not_or]
      constructor
      · rintro rfl
        exact hno List.prefix_rfl
      · exact fun h => hno ((List.prefix_append _ _).trans h)
  | some rest =>
      obtain rfl := Text.eq_append_of_after?_eq_some hafter
      cases rest with
      | nil =>
          rw [List.append_nil] at hafter ⊢
          simp [isUnder, hafter]
      | cons c rest => simp [isUnder, List.cons_prefix_cons, eq_comm]

theorem isUnder_iff_isPrefix {keyPrefix key : Text} :
    isUnder keyPrefix key = true ↔ List.splitOn '.' keyPrefix <+: List.splitOn '.' key := by
  rw [isUnder_iff, Text.splitOn_isPrefix_iff]

/-! ## The convention -/

/-- The number of segments that the convention asks for. -/
def requiredParts (kind : FileKind) : Nat :=
  if kind = .component then 2 else 3

theorem keyParts_eq_requiredParts (kind : FileKind) : kind.keyParts = requiredParts kind := by
  cases kind <;> rfl

/-- A key keeps the convention of a context. -/
structure Follows (context : FileContext) (key : Text) : Prop where
  full : [] ∉ List.splitOn '.' key
  under : List.splitOn '.' context.keyPrefix <+: List.splitOn '.' key
  length_eq : (List.splitOn '.' key).length = requiredParts context.kind

/-- What is reported of a key that breaks the convention of a context. An empty segment comes before
a foreign beginning, and a foreign beginning before a wrong number of segments. -/
inductive Breaks (context : FileContext) (key : Text) : Violation → Prop
  | hasEmpty (hempty : [] ∈ List.splitOn '.' key) :
      Breaks context key (.notEnoughParts key context.kind)
  | foreign (hfull : [] ∉ List.splitOn '.' key)
      (hforeign : ¬ List.splitOn '.' context.keyPrefix <+: List.splitOn '.' key) :
      Breaks context key (.mismatchedKey key context.keyPrefix)
  | short (hfull : [] ∉ List.splitOn '.' key)
      (hunder : List.splitOn '.' context.keyPrefix <+: List.splitOn '.' key)
      (hlength : (List.splitOn '.' key).length < requiredParts context.kind) :
      Breaks context key (.notEnoughParts key context.kind)
  | long (hfull : [] ∉ List.splitOn '.' key)
      (hunder : List.splitOn '.' context.keyPrefix <+: List.splitOn '.' key)
      (hlength : requiredParts context.kind < (List.splitOn '.' key).length) :
      Breaks context key (.tooManyParts key context.kind)

/-- A violation of a key tells the number of segments that the context asks for, or the prefix. -/
def TellsConvention (context : FileContext) (violation : Violation) : Prop :=
  match violation with
  | .notEnoughParts .. =>
    ("minParts".toList, .number (requiredParts context.kind)) ∈ violation.data
  | .tooManyParts .. =>
    ("maxParts".toList, .number (requiredParts context.kind)) ∈ violation.data
  | .mismatchedKey .. => ("expectedPrefix".toList, .text context.keyPrefix) ∈ violation.data
  | .noHardString .. | .invalidPattern .. => False

section

variable {context : FileContext} {ignored : List Text} {key : Text} {violation : Violation}

theorem follows_or_breaks (context : FileContext) (key : Text) :
    Follows context key ∨ ∃ violation, Breaks context key violation := by
  by_cases hfull : [] ∈ List.splitOn '.' key
  · exact .inr ⟨_, .hasEmpty hfull⟩
  by_cases hunder : List.splitOn '.' context.keyPrefix <+: List.splitOn '.' key
  · rcases Nat.lt_trichotomy (List.splitOn '.' key).length (requiredParts context.kind)
      with hshort | heq | hlong
    · exact .inr ⟨_, .short hfull hunder hshort⟩
    · exact .inl ⟨hfull, hunder, heq⟩
    · exact .inr ⟨_, .long hfull hunder hlong⟩
  · exact .inr ⟨_, .foreign hfull hunder⟩

theorem Breaks.tells (h : Breaks context key violation) : TellsConvention context violation := by
  cases h with
  | hasEmpty _ => simp [TellsConvention, Violation.data, keyParts_eq_requiredParts]
  | foreign _ _ => simp [TellsConvention, Violation.data]
  | short _ _ _ => simp [TellsConvention, Violation.data, keyParts_eq_requiredParts]
  | long _ _ _ => simp [TellsConvention, Violation.data, keyParts_eq_requiredParts]

/-- A character other than a dot after the prefix makes another segment of its last one. -/
theorem not_follows_append_cons {c : Char} (hc : c ≠ '.') (rest : Text) :
    ¬ Follows context (context.keyPrefix ++ c :: rest) := by
  intro h
  rcases Text.splitOn_isPrefix_iff.mp h.under with heq | hpre
  · simp at heq
  · rw [List.prefix_append_right_inj, List.cons_prefix_cons] at hpre
    exact hc hpre.1.symm

/-! ## What is reported -/

theorem fault?_of_ignored (h : ∃ p ∈ ignored, p <+: key) : fault? context ignored key = none := by
  have hany : (ignored.any fun p => p.isPrefixOf key) = true := by
    simpa [List.isPrefixOf_iff_prefix] using h
  rw [fault?, if_pos hany]

theorem fault?_of_not_ignored (h : ¬ ∃ p ∈ ignored, p <+: key) :
    fault? context ignored key
      = if [] ∈ List.splitOn '.' key then some (.notEnoughParts key context.kind)
        else if ¬ List.splitOn '.' context.keyPrefix <+: List.splitOn '.' key then
          some (.mismatchedKey key context.keyPrefix)
        else if (List.splitOn '.' key).length < requiredParts context.kind then
          some (.notEnoughParts key context.kind)
        else if requiredParts context.kind < (List.splitOn '.' key).length then
          some (.tooManyParts key context.kind)
        else none := by
  have hany : ¬ (ignored.any fun p => p.isPrefixOf key) = true := by
    simpa [List.isPrefixOf_iff_prefix] using h
  have hempty : (List.splitOn '.' key).any List.isEmpty = true ↔ [] ∈ List.splitOn '.' key := by
    simp
  have hunder : (!isUnder context.keyPrefix key) = true ↔
      ¬ List.splitOn '.' context.keyPrefix <+: List.splitOn '.' key := by
    rw [← isUnder_iff_isPrefix]
    simp
  simp only [fault?, segments_eq_splitOn, hany, hempty, hunder, keyParts_eq_requiredParts,
    gt_iff_lt, Bool.false_eq_true, if_false]

theorem fault?_of_follows (h : Follows context key) : fault? context ignored key = none := by
  by_cases hignored : ∃ p ∈ ignored, p <+: key
  · exact fault?_of_ignored hignored
  · simp [fault?_of_not_ignored hignored, h.full, h.under, h.length_eq]

theorem fault?_of_breaks (hignored : ¬ ∃ p ∈ ignored, p <+: key)
    (h : Breaks context key violation) : fault? context ignored key = some violation := by
  rw [fault?_of_not_ignored hignored]
  cases h with
  | hasEmpty hempty => simp [hempty]
  | foreign hfull hforeign => simp [hfull, hforeign]
  | short hfull hunder hlength => simp [hfull, hunder, hlength]
  | long hfull hunder hlength => simp [hfull, hunder, hlength, Nat.not_lt_of_lt hlength]

theorem fault?_eq_none_iff :
    fault? context ignored key = none ↔ (∃ p ∈ ignored, p <+: key) ∨ Follows context key := by
  constructor
  · intro h
    by_contra hnot
    obtain ⟨hignored, hfollows⟩ := not_or.mp hnot
    obtain ⟨violation, hbreaks⟩ := (follows_or_breaks context key).resolve_left hfollows
    rw [fault?_of_breaks hignored hbreaks] at h
    cases h
  · rintro (hignored | hfollows)
    · exact fault?_of_ignored hignored
    · exact fault?_of_follows hfollows

theorem fault?_eq_some_iff :
    fault? context ignored key = some violation ↔
      (¬ ∃ p ∈ ignored, p <+: key) ∧ Breaks context key violation := by
  constructor
  · intro h
    have hnot : ¬ ((∃ p ∈ ignored, p <+: key) ∨ Follows context key) := by
      rw [← fault?_eq_none_iff, h]
      exact nofun
    obtain ⟨hignored, hfollows⟩ := not_or.mp hnot
    obtain ⟨violation', hbreaks⟩ := (follows_or_breaks context key).resolve_left hfollows
    rw [fault?_of_breaks hignored hbreaks] at h
    cases h
    exact ⟨hignored, hbreaks⟩
  · exact fun h => fault?_of_breaks h.1 h.2

end

/-- A key is accepted exactly if it is ignored or follows the convention, and otherwise reported as
it breaks it. A key that goes on in the last segment of the prefix is never accepted on its own. -/
theorem fault_by_segments (context : FileContext) (ignored : List Text) (key : Text) :
    (fault? context ignored key = none ↔
      (∃ p ∈ ignored, p <+: key) ∨ Follows context key) ∧
    (∀ violation, fault? context ignored key = some violation ↔
      (¬ ∃ p ∈ ignored, p <+: key) ∧ Breaks context key violation) ∧
    (∀ violation, fault? context ignored key = some violation →
      TellsConvention context violation) ∧
    ∀ c rest, c ≠ '.' → key = context.keyPrefix ++ c :: rest →
      (¬ ∃ p ∈ ignored, p <+: key) → fault? context ignored key ≠ none := by
  refine ⟨fault?_eq_none_iff, fun _ => fault?_eq_some_iff, ?_, ?_⟩
  · intro violation h
    exact (fault?_eq_some_iff.mp h).2.tells
  · rintro c rest hc rfl hignored h
    rcases fault?_eq_none_iff.mp h with hyes | hfollows
    · exact hignored hyes
    · exact not_follows_append_cons hc rest hfollows

example : fault? ⟨"signIn".toList, .component⟩ [] "signInForm.title".toList
    = some (.mismatchedKey "signInForm.title".toList "signIn".toList) := by decide

end KeyLint.Key
