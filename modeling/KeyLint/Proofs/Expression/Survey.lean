import KeyLint.Proofs.Expression.Effects
import KeyLint.Proofs.Expression.Lexemes

/-!
# Strings and bars in their groups

A survey goes through the lexemes of an expression and notes its strings and its bars, each with the
bracket groups it stands in. A group goes by the place where its content begins. The operands and
arguments that a scan finds are stretches of places; the survey says which strings are in them.
-/

namespace KeyLint.Expression

/-! ## Surveys -/

/-- A string of an expression, with the place of its first quote and the groups around it. -/
structure StringAt where
  place : Nat
  quote : Char
  content : Text
  groups : List Nat
deriving Repr, DecidableEq

/-- A bar of an expression, with the group that it stands directly in. -/
structure Bar where
  place : Nat
  group : Nat
  /-- The translation pipe follows it. -/
  translated : Bool
deriving Repr, DecidableEq

/-- The place of the last quote. -/
def StringAt.stop (s : StringAt) : Nat :=
  s.place + s.content.length + 1

theorem StringAt.place_lt_stop (s : StringAt) : s.place < s.stop :=
  Nat.lt_succ_of_le (Nat.le_add_right _ _)

/-- What stands in an expression before a place, and the groups that are open there. -/
structure Survey where
  place : Nat := 0
  inner : Nat := 0
  outer : List Nat := []
  strings : List StringAt := []
  bars : List Bar := []
deriving Repr, DecidableEq

namespace Survey

def groups (v : Survey) : List Nat :=
  v.inner :: v.outer

def moved (v : Survey) (width : Nat) : Survey :=
  { v with place := v.place + width }

def quoted (v : Survey) (quote : Char) (content : Text) : Survey :=
  { v with
    place := v.place + (content.length + 2)
    strings := v.strings ++ [⟨v.place, quote, content, v.groups⟩] }

def opened (v : Survey) : Survey :=
  { v with place := v.place + 1, inner := v.place + 1, outer := v.groups }

/-- Goes over a closing bracket. The whole expression is closed by none. -/
def closed (v : Survey) : Survey :=
  match v.outer with
  | [] => v.moved 1
  | parent :: outer => { v with place := v.place + 1, inner := parent, outer }

def piped (v : Survey) (translated : Bool) : Survey :=
  { v with place := v.place + 1, bars := v.bars ++ [⟨v.place, v.inner, translated⟩] }

def after (v : Survey) (rest : Text) : Lexeme → Survey
  | .string quote content => v.quoted quote content
  | .char c =>
    if opensGroup c then v.opened
    else if closesGroup c then v.closed
    else if c = '|' then v.piped (pipeName rest = translationPipe)
    else v.moved 1
  | l => v.moved l.text.length

def through (v : Survey) : List Lexeme → Survey
  | [] => v
  | l :: ls => (v.after (textOf ls) l).through ls

end Survey

def survey (source : Text) : Survey :=
  Survey.through {} (lexemes source)

namespace StringAt

/-- A bar that stands directly in one of the groups around a string comes before the string. -/
def IsArgument (s : StringAt) (bars : List Bar) : Prop :=
  ∃ b ∈ bars, b.group ∈ s.groups ∧ b.place < s.place

/-- A bar that stands directly in one of the groups around a string leads into the translation
pipe. -/
def IsTranslated (s : StringAt) (bars : List Bar) : Prop :=
  ∃ b ∈ bars, b.group ∈ s.groups ∧ b.translated = true

instance (s : StringAt) (bars : List Bar) : Decidable (s.IsArgument bars) :=
  inferInstanceAs (Decidable (∃ b ∈ bars, _ ∧ _))

instance (s : StringAt) (bars : List Bar) : Decidable (s.IsTranslated bars) :=
  inferInstanceAs (Decidable (∃ b ∈ bars, _ ∧ _))

end StringAt

/-! ## The order of places -/

namespace Survey

variable {v : Survey}

theorem after_place (v : Survey) (rest : Text) (l : Lexeme) :
    (v.after rest l).place = v.place + l.text.length := by
  cases l with
  | string quote content => simp [after, quoted, Lexeme.text]
  | unclosed quote content => rfl
  | or => rfl
  | char c =>
      simp only [after, Lexeme.text, List.length_singleton]
      split_ifs
      · rfl
      · unfold closed
        split <;> rfl
      · rfl
      · rfl

theorem through_place (v : Survey) (ls : List Lexeme) :
    (v.through ls).place = v.place + (textOf ls).length := by
  induction ls generalizing v with
  | nil => rfl
  | cons l ls ih =>
      rw [through, ih, after_place, textOf_cons, List.length_append, Nat.add_assoc]

/-- The strings of a survey do not overlap, and each of them is either before an open group or in
it. -/
structure Sound (v : Survey) : Prop where
  group_le : ∀ g ∈ v.groups, g ≤ v.place
  nested : v.groups.Pairwise (· > ·)
  string_lt : ∀ s ∈ v.strings, s.stop < v.place
  apart : v.strings.Pairwise fun s t => s.stop < t.place
  around : ∀ s ∈ v.strings, ∀ g ∈ v.groups, s.stop < g ∨ (g ≤ s.place ∧ g ∈ s.groups)
  bar_le : ∀ b ∈ v.bars, b.group ≤ v.place

namespace Sound

theorem place_lt (h : v.Sound) {s : StringAt} (hs : s ∈ v.strings) : s.place < v.place :=
  s.place_lt_stop.trans (h.string_lt s hs)

theorem empty : Sound {} where
  group_le := by simp [groups]
  nested := by simp [groups]
  string_lt := by simp
  apart := by simp
  around := by simp
  bar_le := by simp

theorem moved (h : v.Sound) (width : Nat) : (v.moved width).Sound where
  group_le g hg := Nat.le_add_right_of_le (h.group_le g hg)
  nested := h.nested
  string_lt s hs := Nat.lt_add_right width (h.string_lt s hs)
  apart := h.apart
  around := h.around
  bar_le b hb := Nat.le_add_right_of_le (h.bar_le b hb)

theorem quoted (h : v.Sound) (quote : Char) (content : Text) :
    (v.quoted quote content).Sound where
  group_le := (h.moved _).group_le
  nested := h.nested
  string_lt := by
    refine List.forall_mem_append.mpr ⟨(h.moved _).string_lt, ?_⟩
    simp [StringAt.stop, Survey.quoted, Nat.add_assoc]
  apart := by
    refine List.pairwise_append.mpr ⟨h.apart, List.pairwise_singleton _ _, ?_⟩
    simpa using h.string_lt
  around := by
    refine List.forall_mem_append.mpr ⟨h.around, ?_⟩
    simpa using fun g hg => Or.inr ⟨h.group_le g hg, hg⟩
  bar_le := (h.moved _).bar_le

theorem opened (h : v.Sound) : v.opened.Sound where
  group_le := List.forall_mem_cons.mpr ⟨Nat.le_refl _, (h.moved 1).group_le⟩
  nested := List.pairwise_cons.mpr ⟨fun g hg => Nat.lt_succ_of_le (h.group_le g hg), h.nested⟩
  string_lt := (h.moved 1).string_lt
  apart := h.apart
  around s hs := List.forall_mem_cons.mpr ⟨.inl ((h.moved 1).string_lt s hs), h.around s hs⟩
  bar_le := (h.moved 1).bar_le

theorem closed (h : v.Sound) : v.closed.Sound := by
  unfold Survey.closed
  cases houter : v.outer with
  | nil => exact h.moved 1
  | cons parent outer =>
      have hgroups : v.groups = v.inner :: parent :: outer := by rw [groups, houter]
      have hmem : ∀ g ∈ parent :: outer, g ∈ v.groups :=
        fun g hg => hgroups ▸ List.mem_cons_of_mem v.inner hg
      exact {
        h.moved 1 with
        group_le := fun g hg => (h.moved 1).group_le g (hmem g hg)
        nested := (List.pairwise_cons.mp (hgroups ▸ h.nested)).2
        around := fun s hs g hg => h.around s hs g (hmem g hg) }

theorem piped (h : v.Sound) (translated : Bool) : (v.piped translated).Sound where
  group_le := (h.moved 1).group_le
  nested := h.nested
  string_lt := (h.moved 1).string_lt
  apart := h.apart
  around := h.around
  bar_le := by
    refine List.forall_mem_append.mpr ⟨(h.moved 1).bar_le, List.forall_mem_singleton.mpr ?_⟩
    exact (h.moved 1).group_le v.inner List.mem_cons_self

theorem after (h : v.Sound) (rest : Text) (l : Lexeme) : (v.after rest l).Sound := by
  cases l with
  | string quote content => exact h.quoted quote content
  | unclosed quote content => exact h.moved _
  | or => exact h.moved _
  | char c =>
      simp only [Survey.after]
      split_ifs
      · exact h.opened
      · exact h.closed
      · exact h.piped _
      · exact h.moved _

end Sound

end Survey

/-! ## The text of strings -/

theorem Survey.mem_strings_after {v : Survey} {rest : Text} {l : Lexeme} {s : StringAt}
    (h : s ∈ (v.after rest l).strings) :
    s ∈ v.strings ∨ (s.place = v.place ∧ l = .string s.quote s.content) := by
  cases l with
  | string quote content =>
      rcases List.mem_append.mp h with hold | hnew
      · exact .inl hold
      · obtain rfl := List.mem_singleton.mp hnew
        exact .inr ⟨rfl, rfl⟩
  | unclosed quote content => exact .inl h
  | or => exact .inl h
  | char c =>
      refine .inl ?_
      simp only [Survey.after] at h
      split_ifs at h
      · exact h
      · unfold Survey.closed at h
        split at h <;> exact h
      · exact h
      · exact h

theorem Survey.mem_strings_through {v : Survey} {ls : List Lexeme} {s : StringAt}
    (h : s ∈ (v.through ls).strings) :
    s ∈ v.strings ∨ (v.place ≤ s.place ∧
      (Lexeme.string s.quote s.content).text <+: (textOf ls).drop (s.place - v.place)) := by
  induction ls generalizing v with
  | nil => exact .inl h
  | cons l ls ih =>
      rcases ih h with hafter | ⟨hle, htext⟩
      · rcases Survey.mem_strings_after hafter with hold | ⟨hplace, rfl⟩
        · exact .inl hold
        · refine .inr ⟨Nat.le_of_eq hplace.symm, ?_⟩
          rw [hplace, Nat.sub_self, List.drop_zero, textOf_cons]
          exact List.prefix_append _ _
      · rw [v.after_place] at hle htext
        refine .inr ⟨Nat.le_of_add_right_le hle, ?_⟩
        rw [textOf_cons, List.drop_append, List.drop_eq_nil_of_le (by omega), List.nil_append,
          Nat.sub_sub]
        exact htext

theorem text_of_mem_strings {source : Text} {s : StringAt} (h : s ∈ (survey source).strings) :
    s.quote :: (s.content ++ [s.quote]) <+: source.drop s.place := by
  rcases Survey.mem_strings_through h with hnone | ⟨_, htext⟩
  · cases hnone
  · rwa [textOf_lexemes] at htext

/-! ## What a scan has found of a survey -/

def Scan.groups (scan : Scan) : List Group :=
  scan.inner :: scan.outer

/-- An open group knows of the bars that stand directly in it. -/
structure Group.Knows (g : Group) (bars : List Bar) (place : Nat) : Prop where
  bar : ∀ b ∈ g.bar, g.start ≤ b ∧ b < place
  barred : ∀ b ∈ bars, b.group = g.start → g.bar ≠ none
  translated : g.translated = true → ∃ b ∈ bars, b.group = g.start ∧ b.translated = true

/-- A stretch is the operand of the translation pipe in some group: a bar of that group leads into
the pipe, and a string lies before the group, in it, or after the stretch. -/
structure Stretch.IsOperand (o : Stretch) (bars : List Bar) (strings : List StringAt) : Prop where
  le : o.start ≤ o.stop
  bar : ∃ b ∈ bars, b.group = o.start ∧ b.translated = true
  string : ∀ s ∈ strings,
    s.stop < o.start ∨ (o.start ≤ s.place ∧ o.start ∈ s.groups) ∨ o.stop ≤ s.place

/-- A scan and a survey of the same lexemes. -/
structure Scan.Follows (scan : Scan) (v : Survey) : Prop where
  sound : v.Sound
  starts : scan.groups.map Group.start = v.groups
  group : ∀ g ∈ scan.groups, g.Knows v.bars v.place
  operand : ∀ o ∈ scan.operands, o.stop ≤ v.place ∧ o.IsOperand v.bars v.strings
  argument : ∀ s ∈ v.strings, s.IsArgument v.bars →
    covers scan.arguments s.place = true ∨ ∃ g ∈ scan.groups, ∃ b ∈ g.bar, b ≤ s.place

theorem Group.Knows.mono {g : Group} {bars : List Bar} {place place' : Nat}
    (h : g.Knows bars place) (hplace : place ≤ place') : g.Knows bars place' where
  bar b hb := ⟨(h.bar b hb).1, Nat.lt_of_lt_of_le (h.bar b hb).2 hplace⟩
  barred := h.barred
  translated := h.translated

/-- A bar of another group. -/
theorem Group.Knows.concat {g : Group} {bars : List Bar} {place : Nat} (h : g.Knows bars place)
    {b : Bar} (hb : b.group ≠ g.start) : g.Knows (bars ++ [b]) place where
  bar := h.bar
  barred := List.forall_mem_append.mpr
    ⟨h.barred, List.forall_mem_singleton.mpr fun hgroup => absurd hgroup hb⟩
  translated htranslated := by
    obtain ⟨a, ha, hgroup⟩ := h.translated htranslated
    exact ⟨a, List.mem_append_left _ ha, hgroup⟩

theorem Group.Knows.piped {g : Group} {bars : List Bar} {place : Nat} (h : g.Knows bars place)
    (hplace : g.start ≤ place) (translated : Bool) :
    Group.Knows ⟨g.start, g.bar <|> some place, g.translated || translated⟩
      (bars ++ [⟨place, g.start, translated⟩]) (place + 1) where
  bar b hb := by
    cases hbar : g.bar with
    | none =>
        obtain rfl : place = b := by simpa [hbar] using hb
        exact ⟨hplace, Nat.lt_succ_self _⟩
    | some a =>
        obtain rfl : a = b := by simpa [hbar] using hb
        exact (h.mono (Nat.le_succ _)).bar a hbar
  barred b _ _ := by simp
  translated htranslated := by
    rcases Bool.or_eq_true_iff.mp htranslated with hbefore | hnow
    · obtain ⟨b, hb, hgroup⟩ := h.translated hbefore
      exact ⟨b, List.mem_append_left _ hb, hgroup⟩
    · exact ⟨_, List.mem_append_right _ (List.mem_singleton.mpr rfl), rfl, hnow⟩

/-- The operand of an open group, once the group is closed. -/
theorem Group.Knows.isOperand {g : Group} {v : Survey} (h : g.Knows v.bars v.place) (hv : v.Sound)
    (hg : g.start ∈ v.groups) :
    ∀ o ∈ g.operand, o.stop ≤ v.place ∧ o.IsOperand v.bars v.strings := by
  intro o ho
  obtain ⟨b, hb, rfl⟩ := Group.mem_operand ho
  have htranslated : g.translated = true := by
    by_contra hfalse
    simp [Group.operand, hfalse, Option.mem_def.mp hb] at ho
  obtain ⟨hlow, hhigh⟩ := h.bar b hb
  refine ⟨Nat.le_of_lt hhigh, hlow, h.translated htranslated, fun s hs => ?_⟩
  rcases hv.around s hs g.start hg with hbefore | hin
  · exact .inl hbefore
  · exact .inr (.inl hin)

theorem Group.covers_arguments {g : Group} {b stop place : Nat} (hb : b ∈ g.bar) (hle : b ≤ place)
    (hplace : place < stop) : covers (g.arguments stop) place = true := by
  simp [Group.arguments, Option.mem_def.mp hb, covers, Stretch.has, hle, hplace]

namespace Scan.Follows

variable {scan : Scan} {v : Survey}

theorem start_mem (h : scan.Follows v) {g : Group} (hg : g ∈ scan.groups) : g.start ∈ v.groups :=
  h.starts ▸ List.mem_map_of_mem hg

theorem empty : Scan.Follows {} {} where
  sound := .empty
  starts := rfl
  group := by
    refine List.forall_mem_singleton.mpr ⟨?_, ?_, ?_⟩
    · simp
    · simp
    · simp
  operand := by simp
  argument := by simp

theorem moved (h : scan.Follows v) (width : Nat) : scan.Follows (v.moved width) where
  sound := h.sound.moved width
  starts := h.starts
  group g hg := (h.group g hg).mono (Nat.le_add_right _ _)
  operand o ho := ⟨Nat.le_add_right_of_le (h.operand o ho).1, (h.operand o ho).2⟩
  argument := h.argument

theorem quoted (h : scan.Follows v) (quote : Char) (content : Text) :
    scan.Follows (v.quoted quote content) where
  sound := h.sound.quoted quote content
  starts := h.starts
  group := (h.moved _).group
  operand o ho := by
    obtain ⟨hstop, hle, hbar, hstring⟩ := h.operand o ho
    refine ⟨Nat.le_add_right_of_le hstop, hle, hbar, ?_⟩
    exact List.forall_mem_append.mpr
      ⟨hstring, List.forall_mem_singleton.mpr (.inr (.inr hstop))⟩
  argument := by
    refine List.forall_mem_append.mpr ⟨h.argument, List.forall_mem_singleton.mpr ?_⟩
    rintro ⟨b, hb, hgroup, -⟩
    obtain ⟨g, hg, hstart⟩ := List.mem_map.mp (h.starts.symm ▸ hgroup)
    have hknows := h.group g hg
    obtain ⟨place, hplace⟩ := Option.ne_none_iff_exists'.mp (hknows.barred b hb hstart.symm)
    exact .inr ⟨g, hg, place, hplace, Nat.le_of_lt (hknows.bar place hplace).2⟩

theorem opened (h : scan.Follows v) : (scan.opened (v.place + 1)).Follows v.opened where
  sound := h.sound.opened
  starts := congrArg (List.cons (v.place + 1)) h.starts
  group := by
    refine List.forall_mem_cons.mpr ⟨⟨?_, ?_, ?_⟩, (h.moved 1).group⟩
    · simp [Scan.opened]
    · intro b hb hgroup
      exact absurd (h.sound.bar_le b hb) (Nat.not_le_of_gt (hgroup ▸ Nat.lt_succ_self _))
    · simp [Scan.opened]
  operand := (h.moved 1).operand
  argument s hs harg := by
    rcases h.argument s hs harg with hcovers | ⟨g, hg, hbar⟩
    · exact .inl hcovers
    · exact .inr ⟨g, List.mem_cons_of_mem _ hg, hbar⟩

theorem closed (h : scan.Follows v) : (scan.closed v.place).Follows v.closed := by
  have hsound := h.sound.closed
  obtain ⟨hinner, houter⟩ :
      scan.inner.start = v.inner ∧ scan.outer.map Group.start = v.outer := by
    simpa [Scan.groups, Survey.groups] using h.starts
  cases hscan : scan.outer with
  | nil =>
      rw [hscan, List.map_nil] at houter
      simp only [Scan.closed, hscan, Survey.closed, ← houter]
      exact h.moved 1
  | cons parent outer =>
      rw [hscan, List.map_cons] at houter
      have hmem : ∀ g ∈ parent :: outer, g ∈ scan.groups :=
        fun g hg => List.mem_cons_of_mem scan.inner (hscan ▸ hg)
      have hfirst : scan.inner ∈ scan.groups := List.mem_cons_self
      simp only [Survey.closed, ← houter] at hsound
      simp only [Scan.closed, hscan, Survey.closed, ← houter]
      constructor
      · exact hsound
      · rfl
      · exact fun g hg => (h.moved 1).group g (hmem g hg)
      · refine List.forall_mem_append.mpr ⟨(h.moved 1).operand, fun o ho => ?_⟩
        obtain ⟨hstop, hoperand⟩ :=
          (h.group _ hfirst).isOperand h.sound (h.start_mem hfirst) o ho
        exact ⟨Nat.le_succ_of_le hstop, hoperand⟩
      -- A string after a bar of the innermost group is in the arguments of that group now.
      · intro s hs harg
        have hplace := h.sound.place_lt hs
        rw [covers_append, Bool.or_eq_true, or_assoc]
        rcases h.argument s hs harg with hcovers | ⟨g, hg, b, hb, hle⟩
        · exact .inl hcovers
        · rcases List.mem_cons.mp hg with rfl | hg
          · exact .inr (.inl (Group.covers_arguments hb hle hplace))
          · rw [hscan] at hg
            exact .inr (.inr ⟨g, hg, b, hb, hle⟩)

theorem piped (h : scan.Follows v) (translated : Bool) :
    (scan.piped v.place translated).Follows (v.piped translated) where
  sound := h.sound.piped translated
  starts := h.starts
  group := by
    have hinner : scan.inner.start = v.inner := (List.cons.inj h.starts).1
    refine List.forall_mem_cons.mpr ⟨?_, fun g hg => ?_⟩
    · have hle := h.sound.group_le v.inner List.mem_cons_self
      rw [Survey.piped, ← hinner]
      exact (h.group _ List.mem_cons_self).piped (hinner ▸ hle) translated
    -- The groups around the innermost one begin before it, so that the bar is in none of them.
    · refine ((h.group g (List.mem_cons_of_mem _ hg)).mono (Nat.le_succ _)).concat ?_
      have hnested := h.sound.nested
      rw [← h.starts] at hnested
      have hlt := (List.pairwise_cons.mp hnested).1 g.start (List.mem_map_of_mem hg)
      exact hinner ▸ Nat.ne_of_gt hlt
  operand o ho := by
    obtain ⟨hstop, hle, ⟨b, hb, hgroup⟩, hstring⟩ := h.operand o ho
    exact ⟨Nat.le_succ_of_le hstop, hle, ⟨b, List.mem_append_left _ hb, hgroup⟩, hstring⟩
  argument s hs harg := by
    have hplace := h.sound.place_lt hs
    obtain ⟨b, hb, hgroup, hlt⟩ := harg
    rcases List.mem_append.mp hb with hb | hb
    · rcases h.argument s hs ⟨b, hb, hgroup, hlt⟩ with hcovers | ⟨g, hg, a, ha, hle⟩
      · exact .inl hcovers
      · rcases List.mem_cons.mp hg with rfl | hg
        · refine .inr ⟨_, List.mem_cons_self, a, ?_, hle⟩
          simp [Scan.piped, Option.mem_def.mp ha]
        · exact .inr ⟨g, List.mem_cons_of_mem _ hg, a, ha, hle⟩
    · obtain rfl := List.mem_singleton.mp hb
      exact absurd hlt (Nat.lt_asymm hplace)

theorem after (h : scan.Follows v) (rest : Text) (l : Lexeme) :
    (scan.after v.place rest l).Follows (v.after rest l) := by
  cases l with
  | string quote content => exact h.quoted quote content
  | unclosed quote content => exact h.moved _
  | or => exact h.moved _
  | char c =>
      simp only [Scan.after, Survey.after]
      split_ifs
      · exact h.opened
      · exact h.closed
      · exact h.piped _
      · exact h.moved _

theorem through (h : scan.Follows v) (ls : List Lexeme) :
    ∃ last : Scan, scanLexemes scan v.place ls = last.finished (v.through ls).place ∧
      last.Follows (v.through ls) := by
  induction ls generalizing scan v with
  | nil => exact ⟨scan, rfl, h⟩
  | cons l ls ih =>
      have hnext := h.after (textOf ls) l
      rw [scanLexemes, ← v.after_place (textOf ls) l]
      exact ih hnext

end Scan.Follows

/-- What the scan of an expression says of its strings. -/
theorem scanCode_survey (source : Text) :
    (survey source).Sound ∧
    (∀ o ∈ (scanCode {} 0 source).operands,
      o.IsOperand (survey source).bars (survey source).strings) ∧
    ∀ s ∈ (survey source).strings, s.IsArgument (survey source).bars →
      covers (scanCode {} 0 source).arguments s.place = true := by
  obtain ⟨last, hscan, h⟩ := Scan.Follows.empty.through (lexemes source)
  rw [scanCode_eq_scanLexemes, survey, hscan]
  refine ⟨h.sound, ?_, fun s hs harg => ?_⟩
  · refine List.forall_mem_append.mpr ⟨fun o ho => (h.operand o ho).2, ?_⟩
    intro o ho
    obtain ⟨g, hg, ho⟩ := List.mem_flatMap.mp ho
    exact ((h.group g hg).isOperand h.sound (h.start_mem hg) o ho).2
  · rw [Scan.finished, covers_append, Bool.or_eq_true]
    rcases h.argument s hs harg with hcovers | ⟨g, hg, b, hb, hle⟩
    · exact .inl hcovers
    · have hin := Group.covers_arguments hb hle (h.sound.place_lt hs)
      obtain ⟨stretch, hstretch, hhas⟩ := List.any_eq_true.mp hin
      exact .inr (List.any_eq_true.mpr ⟨stretch, List.mem_flatMap.mpr ⟨g, hg, hstretch⟩, hhas⟩)

/-- The operands of an expression lie in it. -/
theorem operand_le {source : Text} {o : Stretch} (h : o ∈ (scanCode {} 0 source).operands) :
    o.start ≤ o.stop ∧ o.stop ≤ source.length := by
  obtain ⟨last, hscan, hfollows⟩ := Scan.Follows.empty.through (lexemes source)
  have hplace : (Survey.through {} (lexemes source)).place = source.length := by
    rw [Survey.through_place, textOf_lexemes, Nat.zero_add]
  rw [scanCode_eq_scanLexemes, hscan] at h
  rw [← hplace]
  rcases List.mem_append.mp h with hclosed | hopen
  · obtain ⟨hstop, hoperand⟩ := hfollows.operand o hclosed
    exact ⟨hoperand.le, hstop⟩
  · obtain ⟨g, hg, ho⟩ := List.mem_flatMap.mp hopen
    obtain ⟨hstop, hoperand⟩ :=
      (hfollows.group g hg).isOperand hfollows.sound (hfollows.start_mem hg) o ho
    exact ⟨hoperand.le, hstop⟩

end KeyLint.Expression
