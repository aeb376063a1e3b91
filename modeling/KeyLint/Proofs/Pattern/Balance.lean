import Mathlib.Logic.Relation
import KeyLint.Proofs.Pattern.Acceptance

/-!
# Balanced parentheses are enough

The check of a pattern's shape only counts parentheses, while expansion opens a level at each of
them. In a text that passed the check, the levels that are open are the parentheses that are still to
be closed, so that no level is left open and none is closed twice. Expansion then fails for an empty
alternative or for too many words only.

Beside expansion with its stack of levels stands `Level.read`, which reads by descent: a group is
read by a call of its own, and what is left of the text is handed back. On balanced texts the two
agree (`expandFrom_eq_resume`).
-/

namespace KeyLint.Pattern

/-! ## Reading by descent -/

/-- What may be left of a text after reading. -/
abbrev Rest (t : Text) : Type :=
  { rest : Text // rest.length ≤ t.length }

/-- Why an alternation at the beginning of a text cannot be read, or its words and what is left. -/
abbrev Answer (t : Text) : Type :=
  Except PatternError (List Text × Rest t)

/-- An answer about a part of a text is one about the text. -/
def Answer.of {t part : Text} (hle : part.length ≤ t.length) (answer : Answer part) : Answer t :=
  answer.map fun (words, left) => (words, ⟨left, Nat.le_trans left.2 hle⟩)

namespace Level

/-- The words of a level that ends where the text `t` is left. -/
def finish (level : Level) (t : Text) : Answer t :=
  level.close.map fun words => (words, ⟨t, Nat.le_refl _⟩)

/-- The words of the alternation at the beginning of a text, read at `level`. A closing parenthesis
ends the alternation and is left. -/
def read (level : Level) (t : Text) : Answer t :=
  match t with
  | [] => level.finish []
  | c :: cs =>
    if c = '(' then
      match read {} cs with
      | .error e => .error e
      | .ok (words, ⟨')' :: rest, h⟩) =>
        match level.group words with
        | .error e => .error e
        | .ok level =>
          have : rest.length ≤ cs.length := Nat.le_of_succ_le h
          (level.read rest).of (Nat.le_succ_of_le this)
      | .ok _ => .error .unbalancedParens
    else if c = '|' then
      match level.close with
      | .error e => .error e
      | .ok words => (read { done := words } cs).of (Nat.le_succ _)
    else if c = ')' then level.finish (c :: cs)
    else ((level.literal c).read cs).of (Nat.le_succ _)
termination_by t.length

end Level

/-! ## Reading inside parentheses -/

/-- A fault that only expansion finds. -/
def IsExpansionFault (e : PatternError) : Prop :=
  e = .emptyAlternative ∨ e = .tooManyAlternatives

/-- Where reading inside `depth` parentheses ends: at the end of the text if none is open, else at
the closing one, after which the others are closed. -/
def EndsAt : (depth : Nat) → Text → Prop
  | 0, rest => rest = []
  | depth + 1, rest => ∃ cs, rest = ')' :: cs ∧ isBalanced depth cs = true

theorem EndsAt.isBalanced {depth : Nat} {rest : Text} (h : EndsAt (depth + 1) (')' :: rest)) :
    isBalanced depth rest = true := by
  obtain ⟨cs, heq, hrest⟩ := h
  obtain rfl := (List.cons.inj heq).2
  exact hrest

theorem isBalanced_opening (depth : Nat) (cs : Text) :
    isBalanced depth ('(' :: cs) = isBalanced (depth + 1) cs := by
  rw [isBalanced]

/-- An answer that can be given inside `depth` parentheses. -/
inductive Answer.IsProper (depth : Nat) {t : Text} : Answer t → Prop where
  | fault {e : PatternError} (h : IsExpansionFault e) : IsProper depth (.error e)
  | words {words : List Text} {left : Rest t} (h : EndsAt depth left) :
      IsProper depth (.ok (words, left))

namespace Answer.IsProper

variable {depth : Nat} {t : Text}

theorem of {part : Text} {answer : Answer part} (h : answer.IsProper depth)
    (hle : part.length ≤ t.length) : (answer.of hle).IsProper depth := by
  cases h with
  | fault hfault => exact .fault hfault
  | words hends => exact .words hends

theorem isExpansionFault {e : PatternError} (h : IsProper (t := t) depth (.error e)) :
    IsExpansionFault e := by
  cases h with
  | fault hfault => exact hfault

theorem endsAt {words : List Text} {left : Rest t} (h : IsProper depth (.ok (words, left))) :
    EndsAt depth left := by
  cases h with
  | words hends => exact hends

end Answer.IsProper

namespace Level

theorem isExpansionFault_of_close {level : Level} {e : PatternError} (h : level.close = .error e) :
    IsExpansionFault e := by
  unfold close at h
  split_ifs at h
  · exact .inl (Except.error.inj h).symm
  · exact .inr (Except.error.inj h).symm

theorem isExpansionFault_of_group {level : Level} {words : List Text} {e : PatternError}
    (h : level.group words = .error e) : IsExpansionFault e := by
  unfold group at h
  split_ifs at h
  exact .inr (Except.error.inj h).symm

theorem isProper_finish {depth : Nat} {t : Text} (level : Level) (h : EndsAt depth t) :
    (level.finish t).IsProper depth := by
  cases hclose : level.close with
  | error e =>
      rw [finish, hclose]
      exact .fault (isExpansionFault_of_close hclose)
  | ok words =>
      rw [finish, hclose]
      exact .words h

/-- Reading a balanced text ends where its parentheses say, or with a fault of expansion. -/
theorem isProper_read {depth : Nat} {t : Text} (level : Level) (h : isBalanced depth t = true) :
    (level.read t).IsProper depth := by
  fun_induction read level t generalizing depth with
  | case1 level =>
      obtain rfl : depth = 0 := by simpa [isBalanced] using h
      exact isProper_finish level rfl
  | case2 level cs e hgroup ih =>
      rw [isBalanced_opening] at h
      exact .fault (hgroup ▸ ih h).isExpansionFault
  | case3 level cs words rest hle hgroup e hfull ih =>
      exact .fault (isExpansionFault_of_group hfull)
  | case4 level cs words rest hle hgroup level' hfull hshorter ih ih' =>
      rw [isBalanced_opening] at h
      have hends := (hgroup ▸ ih h).endsAt
      exact (ih' hends.isBalanced).of _
  | case5 level cs answer hopen hgroup ih =>
      obtain ⟨words, left, hle⟩ := answer
      rw [isBalanced_opening] at h
      obtain ⟨rest, rfl, _⟩ := (hgroup ▸ ih h).endsAt
      exact absurd rfl (hopen words rest hle)
  | case6 level cs e hclose => exact .fault (isExpansionFault_of_close hclose)
  | case7 level cs words hclose _ ih =>
      rw [isBalanced_cons_of_ne cs (by decide) (by decide)] at h
      exact (ih h).of _
  | case8 level cs =>
      cases depth with
      | zero => simp [isBalanced] at h
      | succ depth => exact isProper_finish level ⟨cs, rfl, by simpa [isBalanced] using h⟩
  | case9 level c cs hopen _ hend ih =>
      rw [isBalanced_cons_of_ne cs hopen hend] at h
      exact (ih h).of _

end Level

/-! ## Descent and stack agree -/

/-- Goes on with expansion inside the levels `outer` once an alternation has been read. -/
def resume (outer : List Level) {t : Text} : Answer t → Except PatternError (List Text)
  | .error e => .error e
  | .ok (words, left) =>
    match outer, left.1 with
    | [], _ => .ok words
    | parent :: outer, ')' :: rest =>
      match parent.group words with
      | .error e => .error e
      | .ok level => expandFrom outer level rest
    | _ :: _, _ => .error .unbalancedParens

theorem resume_of {outer : List Level} {t part : Text} (hle : part.length ≤ t.length)
    (answer : Answer part) : resume outer (answer.of hle) = resume outer answer := by
  cases answer <;> rfl

/-- Expansion of a balanced text reads one alternation and goes on where it ends. -/
theorem expandFrom_eq_resume {outer : List Level} {t : Text} (level : Level)
    (h : isBalanced outer.length t = true) :
    expandFrom outer level t = resume outer (level.read t) := by
  fun_induction Level.read level t generalizing outer with
  | case1 level =>
      obtain rfl : outer = [] := by simpa [isBalanced] using h
      rw [expandFrom, Level.finish]
      cases level.close <;> rfl
  | case2 level cs e hgroup ih =>
      rw [expandFrom, if_pos rfl, ih (by rwa [isBalanced_opening] at h), hgroup]
      rfl
  | case3 level cs words rest hle hgroup e hfull ih =>
      rw [expandFrom, if_pos rfl, ih (by rwa [isBalanced_opening] at h), hgroup]
      simp only [resume, hfull]
  | case4 level cs words rest hle hgroup level' hfull hshorter ih ih' =>
      have hinside : isBalanced (level :: outer).length cs = true := by
        rwa [isBalanced_opening] at h
      have hends := (hgroup ▸ Level.isProper_read {} hinside).endsAt
      rw [expandFrom, if_pos rfl, ih hinside, hgroup, resume_of, ← ih' hends.isBalanced]
      simp only [resume, hfull]
  | case5 level cs answer hopen hgroup ih =>
      obtain ⟨words, left, hle⟩ := answer
      have hinside : isBalanced (level :: outer).length cs = true := by
        rwa [isBalanced_opening] at h
      obtain ⟨rest, rfl, _⟩ := (hgroup ▸ Level.isProper_read {} hinside).endsAt
      exact absurd rfl (hopen words rest hle)
  | case6 level cs e hclose =>
      rw [expandFrom, if_neg (by decide), if_pos rfl, hclose]
      rfl
  | case7 level cs words hclose _ ih =>
      rw [isBalanced_cons_of_ne cs (by decide) (by decide)] at h
      rw [expandFrom, if_neg (by decide), if_pos rfl, hclose, resume_of, ← ih h]
  | case8 level cs =>
      cases outer with
      | nil => simp [isBalanced] at h
      | cons parent outer =>
          rw [expandFrom, if_neg (by decide), if_neg (by decide), if_pos rfl, Level.finish]
          cases level.close <;> rfl
  | case9 level c cs hopen hbar hend ih =>
      rw [isBalanced_cons_of_ne cs hopen hend] at h
      rw [expandFrom, if_neg hopen, if_neg hbar, if_neg hend, resume_of, ← ih h]

/-! ## Runs of expansion -/

/-- Where expansion stands: the levels around the current one, that level, and the rest of the
text. -/
structure State where
  outer : List Level
  level : Level
  rest : Text

namespace State

/-- What expansion answers from a state on. -/
def expand (s : State) : Except PatternError (List Text) :=
  expandFrom s.outer s.level s.rest

/-- One character is read, and expansion goes on. -/
inductive Step : State → State → Prop where
  | opening (outer : List Level) (level : Level) (cs : Text) :
      Step ⟨outer, level, '(' :: cs⟩ ⟨level :: outer, {}, cs⟩
  | bar {outer : List Level} {level : Level} {words : List Text} (cs : Text)
      (hclose : level.close = .ok words) :
      Step ⟨outer, level, '|' :: cs⟩ ⟨outer, { done := words }, cs⟩
  | closing {parent level next : Level} {outer : List Level} {words : List Text} (cs : Text)
      (hclose : level.close = .ok words) (hgroup : parent.group words = .ok next) :
      Step ⟨parent :: outer, level, ')' :: cs⟩ ⟨outer, next, cs⟩
  | literal {c : Char} (outer : List Level) (level : Level) (cs : Text)
      (hopen : c ≠ '(') (hbar : c ≠ '|') (hend : c ≠ ')') :
      Step ⟨outer, level, c :: cs⟩ ⟨outer, level.literal c, cs⟩

/-- A step does not change what expansion answers. -/
theorem Step.expand_eq {s s' : State} (h : Step s s') : s.expand = s'.expand := by
  cases h with
  | opening outer level cs => rw [expand, expandFrom, if_pos rfl, expand]
  | bar cs hclose =>
      rw [expand, expandFrom, if_neg (by decide), if_pos rfl]
      simp only [hclose, expand]
  | closing cs hclose hgroup =>
      rw [expand, expandFrom, if_neg (by decide), if_neg (by decide), if_pos rfl]
      simp only [hclose, hgroup, expand]
  | literal outer level cs hopen hbar hend =>
      rw [expand, expandFrom, if_neg hopen, if_neg hbar, if_neg hend, expand]

/-- Expansion answers the same from every state of a run. -/
theorem expand_eq_of_run {s s' : State} (hrun : Relation.ReflTransGen Step s s') :
    s.expand = s'.expand := by
  induction hrun with
  | refl => rfl
  | tail _ hstep ih => exact ih.trans hstep.expand_eq

/-- A state that the expansion of a balanced text can be in. -/
structure IsSound (s : State) : Prop where
  /-- The levels around the current one are the parentheses that are still to be closed. -/
  balanced : isBalanced s.outer.length s.rest = true
  /-- No sequence has got too many words. -/
  bounded : ∀ level ∈ s.level :: s.outer, level.current.length ≤ maxWords

theorem length_current_of_new (done : List Text) :
    ({ done } : Level).current.length ≤ maxWords :=
  show 1 ≤ maxWords by decide

theorem length_current_of_group {parent level : Level} {words : List Text}
    (h : parent.group words = .ok level) : level.current.length ≤ maxWords := by
  unfold Level.group at h
  split_ifs at h with hle
  obtain rfl := Except.ok.inj h
  rw [length_product]
  exact Nat.le_of_not_lt hle

theorem IsSound.step {s s' : State} (h : s.IsSound) (hstep : Step s s') : s'.IsSound := by
  obtain ⟨hbalanced, hbounded⟩ := h
  cases hstep with
  | opening outer level cs =>
      rw [isBalanced_opening] at hbalanced
      exact ⟨hbalanced, List.forall_mem_cons.mpr ⟨length_current_of_new [], hbounded⟩⟩
  | bar cs hclose =>
      rw [isBalanced_cons_of_ne cs (by decide) (by decide)] at hbalanced
      obtain ⟨_, houter⟩ := List.forall_mem_cons.mp hbounded
      exact ⟨hbalanced, List.forall_mem_cons.mpr ⟨length_current_of_new _, houter⟩⟩
  | closing cs hclose hgroup =>
      obtain ⟨_, hparents⟩ := List.forall_mem_cons.mp hbounded
      obtain ⟨_, houter⟩ := List.forall_mem_cons.mp hparents
      exact ⟨by simpa [isBalanced] using hbalanced,
        List.forall_mem_cons.mpr ⟨length_current_of_group hgroup, houter⟩⟩
  | literal outer level cs hopen hbar hend =>
      rw [isBalanced_cons_of_ne cs hopen hend] at hbalanced
      obtain ⟨hlevel, houter⟩ := List.forall_mem_cons.mp hbounded
      exact ⟨hbalanced, List.forall_mem_cons.mpr ⟨by simpa [Level.literal] using hlevel, houter⟩⟩

theorem IsSound.of_run {s s' : State} (h : s.IsSound) (hrun : Relation.ReflTransGen Step s s') :
    s'.IsSound := by
  induction hrun with
  | refl => exact h
  | tail _ hstep ih => exact ih.step hstep

/-- How expansion ends: with a fault, or at the end of the text with no level around the last
one. -/
inductive IsLast (s : State) : Prop where
  | fault {e : PatternError} (hfault : IsExpansionFault e) (h : s.expand = .error e)
  | finished (houter : s.outer = []) (hrest : s.rest = []) (h : s.expand = s.level.close)

theorem IsLast.of_close {outer : List Level} {level : Level} {c : Char} {cs : Text}
    {e : PatternError} (hc : c = '|' ∨ c = ')') (hclose : level.close = .error e) :
    IsLast ⟨outer, level, c :: cs⟩ := by
  refine .fault (Level.isExpansionFault_of_close hclose) ?_
  rcases hc with rfl | rfl <;> simp [expand, expandFrom, hclose]

/-- Expansion goes on or ends; it never meets a parenthesis too many or too few. -/
theorem IsSound.step_or_isLast {s : State} (h : s.IsSound) : (∃ s', Step s s') ∨ s.IsLast := by
  obtain ⟨hbalanced, _⟩ := h
  obtain ⟨outer, level, t⟩ := s
  cases t with
  | nil =>
      obtain rfl : outer = [] := by simpa [isBalanced] using hbalanced
      exact .inr (.finished rfl rfl (by rw [expand, expandFrom]))
  | cons c cs =>
      by_cases hopen : c = '('
      · subst hopen
        exact .inl ⟨_, .opening outer level cs⟩
      by_cases hbar : c = '|'
      · subst hbar
        cases hclose : level.close with
        | error e => exact .inr (.of_close (.inl rfl) hclose)
        | ok words => exact .inl ⟨_, .bar cs hclose⟩
      by_cases hend : c = ')'
      · subst hend
        cases outer with
        | nil => simp [isBalanced] at hbalanced
        | cons parent outer =>
            cases hclose : level.close with
            | error e => exact .inr (.of_close (.inr rfl) hclose)
            | ok words =>
                cases hgroup : parent.group words with
                | error e =>
                    refine .inr (.fault (Level.isExpansionFault_of_group hgroup) ?_)
                    simp [expand, expandFrom, hclose, hgroup]
                | ok next => exact .inl ⟨_, .closing cs hclose hgroup⟩
      · exact .inl ⟨_, .literal outer level cs hopen hbar hend⟩

theorem IsSound.outer_of_rest {s : State} (h : s.IsSound) :
    (s.rest = [] → s.outer = []) ∧ (s.rest.head? = some ')' → s.outer ≠ []) := by
  obtain ⟨outer, level, t⟩ := s
  obtain ⟨hbalanced, _⟩ := h
  constructor
  · rintro rfl
    simpa [isBalanced] using hbalanced
  · rintro hhead rfl
    obtain ⟨cs, rfl⟩ := List.head?_eq_some_iff.mp hhead
    simp [isBalanced] at hbalanced

end State

/-! ## Patterns without a fault of shape -/

/-- A pattern without a fault of shape is read to its end, or refused for an empty alternative or too
many words. On the way the answer stays the same, a level around the current one is open at every
closing parenthesis, none is at the end of the text, and no sequence gets more than 256 words. -/
theorem expansion_of_balanced {source : Text} (h : shapeError? source = none) :
    (∀ e, Level.read {} source = .error e → e = .emptyAlternative ∨ e = .tooManyAlternatives) ∧
    (∀ words left, Level.read {} source = .ok (words, left) → left.1 = []) ∧
    expandFrom [] {} source = (Level.read {} source).map Prod.fst ∧
    ∀ s, Relation.ReflTransGen State.Step ⟨[], {}, source⟩ s →
      s.expand = expandFrom [] {} source ∧
      ((∃ s', s.Step s') ∨ s.IsLast) ∧
      (s.rest = [] → s.outer = []) ∧ (s.rest.head? = some ')' → s.outer ≠ []) ∧
      ∀ level ∈ s.level :: s.outer, level.current.length ≤ 256 := by
  obtain ⟨_, _, hbalanced⟩ := shapeError?_eq_none_iff.mp h
  have hread := Level.isProper_read {} hbalanced
  refine ⟨fun e he => (he ▸ hread).isExpansionFault, fun words left hok => (hok ▸ hread).endsAt,
    ?_, ?_⟩
  · have hexpand : expandFrom [] {} source = resume [] (Level.read {} source) :=
      expandFrom_eq_resume {} hbalanced
    rw [hexpand]
    cases Level.read {} source <;> rfl
  · intro s hrun
    have hstart : State.IsSound ⟨[], {}, source⟩ :=
      ⟨hbalanced, by simpa using State.length_current_of_new []⟩
    have hsound := hstart.of_run hrun
    exact ⟨(State.expand_eq_of_run hrun).symm, hsound.step_or_isLast, hsound.outer_of_rest.1,
      hsound.outer_of_rest.2, hsound.bounded⟩

/-- Both groups of `(a|b)(c|d)` are read to their ends. -/
theorem expansion_of_two_groups :
    shapeError? "(a|b)(c|d)".toList = none ∧
      ∃ left, Level.read {} "(a|b)(c|d)".toList
          = .ok (["ac".toList, "ad".toList, "bc".toList, "bd".toList], left) ∧ left.1 = [] := by
  have hshape : shapeError? "(a|b)(c|d)".toList = none := by rfl
  obtain ⟨_, hend, hexpand, _⟩ := expansion_of_balanced hshape
  have hwords : expandFrom [] {} "(a|b)(c|d)".toList
      = .ok ["ac".toList, "ad".toList, "bc".toList, "bd".toList] := by rfl
  rw [hwords] at hexpand
  rcases hread : Level.read {} "(a|b)(c|d)".toList with e | ⟨words, left⟩
  · rw [hread] at hexpand
    cases hexpand
  · rw [hread] at hexpand
    cases hexpand
    exact ⟨hshape, left, rfl, hend _ left hread⟩

end KeyLint.Pattern
