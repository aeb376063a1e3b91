import Mathlib.Data.List.Forall2
import KeyLint.Proofs.Expression.Tree

/-!
# What scanning items does

The scan of some items of a group adds to the scan before them: bars of the group itself, operands
and arguments of the groups that are closed in between. An effect records this, with the literals
of the items and their places. It explains the items if the stretches that it has for the places of
the literals say the same as the tree does.
-/

namespace KeyLint.Expression

/-! ## Effects -/

/-- What the scan of a part of a group adds, and the literals in that part. -/
structure Effect where
  bar : Option Nat := none
  translated : Bool := false
  operands : List Stretch := []
  arguments : List Stretch := []
  literals : List QuotedKey := []

namespace Effect

def append (e f : Effect) : Effect where
  bar := e.bar <|> f.bar
  translated := e.translated || f.translated
  operands := e.operands ++ f.operands
  arguments := e.arguments ++ f.arguments
  literals := e.literals ++ f.literals

theorem append_empty (e : Effect) : e.append {} = e := by
  simp [append]

/-- The effect of a closed group whose content has an effect. -/
def closed (e : Effect) (start stop : Nat) : Effect where
  operands := e.operands ++ Group.operand ⟨start, e.bar, e.translated⟩
  arguments := e.arguments ++ Group.arguments ⟨start, e.bar, e.translated⟩ stop
  literals := e.literals

end Effect

namespace Scan

def add (scan : Scan) (e : Effect) : Scan where
  inner := ⟨scan.inner.start, scan.inner.bar <|> e.bar, scan.inner.translated || e.translated⟩
  outer := scan.outer
  operands := scan.operands ++ e.operands
  arguments := scan.arguments ++ e.arguments

theorem add_literals (scan : Scan) (literals : List QuotedKey) : scan.add { literals } = scan := by
  simp [add]

theorem add_append (scan : Scan) (e f : Effect) : (scan.add e).add f = scan.add (e.append f) := by
  simp [add, Effect.append, Bool.or_assoc, Option.or_assoc]

theorem closed_add_opened (scan : Scan) (e : Effect) (start stop : Nat) :
    ((scan.opened start).add e).closed stop = scan.add (e.closed start stop) := by
  simp [closed, opened, add, Effect.closed]

theorem piped_eq_add (scan : Scan) (place : Nat) (translated : Bool) :
    scan.piped place translated = scan.add { bar := some place, translated := translated } := by
  simp [piped, add]

end Scan

/-! ## Stretches of a group -/

namespace Group

theorem mem_operand {group : Group} {s : Stretch} (h : s ∈ group.operand) :
    ∃ b ∈ group.bar, s = ⟨group.start, b⟩ := by
  unfold operand at h
  split at h
  · next b hbar =>
      split at h
      · exact ⟨b, hbar, List.mem_singleton.mp h⟩
      · cases h
  · cases h

theorem mem_arguments {group : Group} {stop : Nat} {s : Stretch} (h : s ∈ group.arguments stop) :
    ∃ b ∈ group.bar, s = ⟨b, stop⟩ := by
  unfold arguments at h
  split at h
  · next b hbar => exact ⟨b, hbar, List.mem_singleton.mp h⟩
  · cases h

end Group

/-! ## Places -/

/-- A place is in one of several stretches. -/
def covers (stretches : List Stretch) (place : Nat) : Bool :=
  stretches.any fun s => s.has place

theorem covers_append (s t : List Stretch) (place : Nat) :
    covers (s ++ t) place = (covers s place || covers t place) :=
  List.any_append

/-- The bars, stretches and literals of an effect lie between two places. -/
structure Effect.Within (e : Effect) (start stop : Nat) : Prop where
  le : start ≤ stop
  bar : ∀ b ∈ e.bar, start ≤ b ∧ b < stop
  translated : e.translated = true → e.bar ≠ none
  operand : ∀ s ∈ e.operands, start ≤ s.start ∧ s.stop ≤ stop
  argument : ∀ s ∈ e.arguments, start ≤ s.start ∧ s.stop ≤ stop
  literal : ∀ k ∈ e.literals, start ≤ k.place ∧ k.place < stop

theorem covers_eq_false {stretches : List Stretch} {start stop place : Nat}
    (h : ∀ s ∈ stretches, start ≤ s.start ∧ s.stop ≤ stop) (hplace : place < start ∨ stop ≤ place) :
    covers stretches place = false := by
  rw [covers, List.any_eq_false]
  intro s hs
  have hbounds := h s hs
  simp only [Stretch.has, Bool.and_eq_true, decide_eq_true_eq]
  omega

namespace Effect.Within

variable {e f : Effect} {start middle stop : Nat}

theorem empty (h : start ≤ stop) : Effect.Within {} start stop where
  le := h
  bar := by simp
  translated := by simp
  operand := by simp
  argument := by simp
  literal := by simp

theorem mono {start' stop' : Nat} (h : e.Within start stop) (hstart : start' ≤ start)
    (hstop : stop ≤ stop') : e.Within start' stop' where
  le := by have := h.le; omega
  bar b hb := by have := h.bar b hb; omega
  translated := h.translated
  operand s hs := by have := h.operand s hs; omega
  argument s hs := by have := h.argument s hs; omega
  literal k hk := by have := h.literal k hk; omega

theorem append (he : e.Within start middle) (hf : f.Within middle stop) :
    (e.append f).Within start stop := by
  have he' := he.mono (Nat.le_refl _) hf.le
  have hf' := hf.mono he.le (Nat.le_refl _)
  constructor
  · exact he'.le
  · intro b hb
    cases hbar : e.bar with
    | none => exact hf'.bar b (by simpa [Effect.append, hbar] using hb)
    | some a => exact he'.bar b (by simpa [Effect.append, hbar] using hb)
  · intro htranslated hnone
    have hbars : e.bar = none ∧ f.bar = none := by simpa [Effect.append] using hnone
    rcases Bool.or_eq_true_iff.mp htranslated with he | hf
    · exact he'.translated he hbars.1
    · exact hf'.translated hf hbars.2
  · exact List.forall_mem_append.mpr ⟨he'.operand, hf'.operand⟩
  · exact List.forall_mem_append.mpr ⟨he'.argument, hf'.argument⟩
  · exact List.forall_mem_append.mpr ⟨he'.literal, hf'.literal⟩

theorem closed (h : e.Within start stop) : (e.closed start stop).Within start stop := by
  constructor
  · exact h.le
  · simp [Effect.closed]
  · simp [Effect.closed]
  · refine List.forall_mem_append.mpr ⟨h.operand, fun s hs => ?_⟩
    obtain ⟨b, hb, rfl⟩ := Group.mem_operand hs
    exact ⟨Nat.le_refl _, Nat.le_of_lt (h.bar b hb).2⟩
  · refine List.forall_mem_append.mpr ⟨h.argument, fun s hs => ?_⟩
    obtain ⟨b, hb, rfl⟩ := Group.mem_arguments hs
    exact ⟨(h.bar b hb).1, Nat.le_refl _⟩
  · exact h.literal

end Effect.Within

/-! ## The literals of an effect and those of a tree -/

/-- A literal at its place and an occurrence have the same content and are operands or arguments
alike. -/
structure Effect.Agrees (e : Effect) (k : QuotedKey) (o : Occurrence) : Prop where
  content : k.key = o.content
  operand : covers e.operands k.place = o.isOperand
  argument : covers e.arguments k.place = o.isArgument

namespace Effect.Agrees

variable {e f : Effect} {start middle stop : Nat} {k : QuotedKey} {o : Occurrence}

theorem append_right (h : e.Agrees k o) (hf : f.Within middle stop) (hk : k.place < middle) :
    (e.append f).Agrees k o where
  content := h.content
  operand := by
    rw [Effect.append, covers_append, covers_eq_false hf.operand (.inl hk), Bool.or_false,
      h.operand]
  argument := by
    rw [Effect.append, covers_append, covers_eq_false hf.argument (.inl hk), Bool.or_false,
      h.argument]

theorem append_left (h : f.Agrees k o) (he : e.Within start middle) (hk : middle ≤ k.place) :
    (e.append f).Agrees k o where
  content := h.content
  operand := by
    rw [Effect.append, covers_append, covers_eq_false he.operand (.inr hk), Bool.false_or,
      h.operand]
  argument := by
    rw [Effect.append, covers_append, covers_eq_false he.argument (.inr hk), Bool.false_or,
      h.argument]

/-- Closing a group adds its stretches to an effect, and its standing to an occurrence. -/
theorem closed (h : e.Agrees k o) (he : e.Within start stop)
    (hk : start ≤ k.place ∧ k.place < stop) :
    (e.closed start stop).Agrees k
      (o.inside ⟨e.translated, e.bar.any fun b => decide (b ≤ k.place)⟩) := by
  obtain ⟨hlow, hhigh⟩ := hk
  constructor
  · exact h.content
  · rw [Effect.closed, covers_append, h.operand]
    cases hbar : e.bar with
    | none =>
        -- Without a bar there is nothing that could lead into the translation pipe.
        have hfalse : e.translated = false := by
          rw [Bool.eq_false_iff]
          exact fun htranslated => he.translated htranslated hbar
        simp [Group.operand, covers, Occurrence.isOperand, Occurrence.inside, hfalse]
    | some b =>
        cases htranslated : e.translated with
        | false => simp [Group.operand, covers, Occurrence.isOperand, Occurrence.inside]
        | true =>
            have hside : (!decide (b ≤ k.place)) = decide (k.place < b) := by
              rw [← decide_not, decide_eq_decide, Nat.not_le]
            simp [Group.operand, hside, covers, Occurrence.isOperand, Occurrence.inside, Stretch.has,
              hlow, Bool.or_comm]
  · rw [Effect.closed, covers_append, h.argument]
    cases hbar : e.bar with
    | none => simp [Group.arguments, covers, Occurrence.isArgument, Occurrence.inside]
    | some b =>
        simp [Group.arguments, covers, Occurrence.isArgument, Occurrence.inside, Stretch.has, hhigh,
          Bool.or_comm]

end Effect.Agrees

/-- The standing of a place in a group that had a standing before an effect. -/
def Effect.standing (e : Effect) (before : Standing) (place : Nat) : Standing :=
  { before with afterBar := before.afterBar || e.bar.any fun b => decide (b ≤ place) }

theorem Effect.Within.standing_eq {e : Effect} {start stop place : Nat} (h : e.Within start stop)
    (before : Standing) (hplace : place < start) : e.standing before place = before := by
  have hnone : (e.bar.any fun b => decide (b ≤ place)) = false := by
    cases hbar : e.bar with
    | none => rfl
    | some b =>
        have hb := h.bar b (by simp [hbar])
        exact decide_eq_false (by omega)
  rw [Effect.standing, hnone, Bool.or_false]

/-- The literals of an effect agree with those of items in a group, one by one and in order. -/
structure Effect.Explains (e : Effect) (items : List Item) : Prop where
  translated : e.translated = isTranslated items
  literals : ∀ before, List.Forall₂
    (fun k o => ∃ inner, o = Occurrence.inside (e.standing before k.place) inner ∧ e.Agrees k inner)
    e.literals (occurrences before items)

namespace Effect.Explains

variable {e f : Effect} {start middle stop : Nat} {items : List Item}

theorem nil : Effect.Explains {} [] where
  translated := rfl
  literals _ := .nil

/-- An item other than a bar before items that are explained. -/
theorem cons {item : Item} (h : f.Explains items) (hne : item ≠ .bar) (hbar : e.bar = none)
    (htranslated : e.translated = false) (hitem : List.Forall₂ e.Agrees e.literals item.occurrences)
    (he : e.Within start middle) (hf : f.Within middle stop) :
    (e.append f).Explains (item :: items) := by
  have hafter : ∀ before : Standing, before.after item = before := by
    intro before
    cases item <;> first | rfl | exact absurd rfl hne
  have hstanding : ∀ before place,
      (e.append f).standing before place = f.standing before place := by
    simp [Effect.standing, Effect.append, hbar]
  constructor
  · rw [Effect.append, htranslated, Bool.false_or, h.translated]
    cases item <;> first | rfl | exact absurd rfl hne
  · intro before
    rw [occurrences, hafter]
    refine List.rel_append ?_ ?_
    -- No stretch or bar of the other part is at the place of a literal.
    · rw [List.forall₂_map_right_iff]
      refine ((List.forall₂_and_left _ _).mpr ⟨he.literal, hitem⟩).imp ?_
      rintro k o ⟨⟨_, hk⟩, hagrees⟩
      refine ⟨o, ?_, hagrees.append_right hf hk⟩
      rw [hstanding, hf.standing_eq before hk]
    · refine ((List.forall₂_and_left _ _).mpr ⟨hf.literal, h.literals before⟩).imp ?_
      rintro k o ⟨⟨hk, _⟩, inner, rfl, hagrees⟩
      exact ⟨inner, by rw [hstanding], hagrees.append_left he hk⟩

theorem bar (h : f.Explains items) {place : Nat} (hplace : place < middle)
    (hf : f.Within middle stop) :
    Effect.Explains (Effect.append
      { bar := some place, translated := identifier items = translationPipe } f) (.bar :: items) := by
  have he : Effect.Within
      { bar := some place, translated := identifier items = translationPipe } place middle :=
    { Effect.Within.empty (Nat.le_of_lt hplace) with
      bar := by simpa using hplace
      translated := by simp }
  constructor
  · rw [Effect.append, h.translated, isTranslated]
  · intro before
    have hliterals := h.literals { before with afterBar := true }
    refine ((List.forall₂_and_left _ _).mpr ⟨hf.literal, hliterals⟩).imp ?_
    rintro k o ⟨⟨hk, _⟩, inner, rfl, hagrees⟩
    have hle : place ≤ k.place := by omega
    refine ⟨inner, ?_, hagrees.append_left he hk⟩
    simp [Effect.standing, Effect.append, hle]

/-- A group is explained by the effect of its content once it is closed. -/
theorem agrees_closed (h : e.Explains items) (he : e.Within start stop) :
    List.Forall₂ (e.closed start stop).Agrees e.literals
      (occurrences ⟨isTranslated items, false⟩ items) := by
  refine ((List.forall₂_and_left _ _).mpr ⟨he.literal, h.literals _⟩).imp ?_
  rintro k o ⟨hk, inner, rfl, hagrees⟩
  rw [Effect.standing, Bool.false_or, ← h.translated]
  exact hagrees.closed he hk

end Effect.Explains

end KeyLint.Expression
