import KeyLint.Expression.Keys
import KeyLint.Proofs.Expression.Survey
import KeyLint.Proofs.Expression.Tokens
import KeyLint.Proofs.Template.Regions

/-!
# Interpolations and mentions of the translation pipe

The interpolations of a text are found from left to right, whatever stands between them. The quick
test for the name of the translation pipe loses no key: where the name does not occur, no group of
an expression leads into the pipe, and only `read` clauses are left.
-/

namespace KeyLint.Expression

/-! ## Interpolations -/

theorem interpolations_eq (t : Text) :
    interpolations t
      = match Text.cut? "\x7b\x7b".toList t with
        | none => []
        | some (_, body) =>
          match Text.cut? "\x7d\x7d".toList body with
          | none => []
          | some (unit, rest) => unit :: interpolations rest := by
  rw [interpolations]
  split
  · next h => rw [h]
  · next h =>
      rw [h]
      split
      · next h' => simp only [h']
      · next h' => simp only [h']

theorem interpolations_append_left {s : Text} (hs : '\x7b' ∉ s) (t : Text) :
    interpolations (s ++ t) = interpolations t := by
  have hcut : Text.cut? "\x7b\x7b".toList (s ++ t)
      = (Text.cut? "\x7b\x7b".toList t).map (Prod.map (s ++ ·) id) :=
    Text.cut?_append_left hs ['\x7b'] t
  rw [interpolations_eq (s ++ t), interpolations_eq t, hcut]
  cases Text.cut? "\x7b\x7b".toList t <;> rfl

theorem interpolations_interpolation {e : Text} (hfree : ¬ ['\x7d', '\x7d'] <:+: e)
    (hlast : e.getLast? ≠ some '\x7d') (t : Text) :
    interpolations ('\x7b' :: '\x7b' :: (e ++ '\x7d' :: '\x7d' :: t)) = e :: interpolations t := by
  have hopen : Text.cut? "\x7b\x7b".toList ('\x7b' :: '\x7b' :: (e ++ '\x7d' :: '\x7d' :: t))
      = some ([], e ++ '\x7d' :: '\x7d' :: t) := rfl
  rw [interpolations_eq, hopen]
  simp only [Template.cut?_interpolation t hfree hlast]

theorem interpolations_append_right {s : Text} (hopen : '\x7b' ∉ s) (hclose : '\x7d' ∉ s)
    (t : Text) : interpolations (t ++ s) = interpolations t := by
  have hopens := Text.cut?_append_of_disjoint (w := "\x7b\x7b".toList) (by decide)
    (s := s) (by simp [hopen])
  have hcloses := Text.cut?_append_of_disjoint (w := "\x7d\x7d".toList) (by decide)
    (s := s) (by simp [hclose])
  fun_induction interpolations t with
  | case1 t hnone => rw [interpolations_eq, hopens, hnone]; rfl
  | case2 t _ body hsome hnone =>
      rw [interpolations_eq, hopens, hsome]
      simp only [Option.map_some, Prod.map, hcloses, hnone, Option.map_none]
  | case3 t _ body hsome unit rest hunit ih =>
      rw [interpolations_eq, hopens, hsome]
      simp only [Option.map_some, Prod.map, hcloses, hunit, ih, id_eq]

theorem interpolations_flatMap {α : Type} {render : α → Text} {units : α → List Text} {xs : List α}
    (h : ∀ x ∈ xs, ∀ t, interpolations (render x ++ t) = units x ++ interpolations t) :
    interpolations (xs.flatMap render) = xs.flatMap units := by
  induction xs with
  | nil => rw [List.flatMap_nil, interpolations_eq]; rfl
  | cons x xs ih =>
      obtain ⟨hx, hxs⟩ := List.forall_mem_cons.mp h
      rw [List.flatMap_cons, hx, ih hxs, List.flatMap_cons]

/-- The blanks around a text hold no interpolations. -/
theorem interpolations_trim (t : Text) : interpolations (Text.trim t) = interpolations t := by
  obtain ⟨rest, ht, hrest⟩ := Text.eq_append_trim t
  have hblank : ∀ c : Char, Text.isBlank c = true → c ≠ '\x7b' ∧ c ≠ '\x7d' := by
    intro c hc
    constructor <;> rintro rfl <;> cases hc
  have hlead : '\x7b' ∉ t.takeWhile Text.isBlank :=
    fun hmem => (hblank _ (List.mem_takeWhile_imp hmem)).1 rfl
  have hopen : '\x7b' ∉ rest := fun hmem => (hblank _ (hrest _ hmem)).1 rfl
  have hclose : '\x7d' ∉ rest := fun hmem => (hblank _ (hrest _ hmem)).2 rfl
  calc interpolations (Text.trim t)
      = interpolations (Text.trim t ++ rest) := (interpolations_append_right hopen hclose _).symm
    _ = interpolations (t.takeWhile Text.isBlank ++ (Text.trim t ++ rest)) :=
        (interpolations_append_left hlead _).symm
    _ = interpolations t := by rw [← List.append_assoc, ← ht]

theorem infix_of_mem_interpolations {t u : Text} (h : u ∈ interpolations t) : u <:+: t := by
  fun_induction interpolations t with
  | case1 => cases h
  | case2 => cases h
  | case3 t before body hopen unit rest hclose ih =>
      have hbody : body <:+: t :=
        ⟨before ++ "\x7b\x7b".toList, [], by simp [Text.eq_append_of_cut?_eq_some hopen]⟩
      refine .trans ?_ hbody
      rw [Text.eq_append_of_cut?_eq_some hclose]
      rcases List.mem_cons.mp h with rfl | hmem
      · exact ⟨[], "\x7d\x7d".toList ++ rest, by simp⟩
      · exact (ih hmem).trans ⟨unit ++ "\x7d\x7d".toList, [], by simp⟩

/-! ## Expressions that do not mention the translation pipe -/

/-- None of the groups of a scan leads into the translation pipe. -/
structure Scan.IsUntranslated (scan : Scan) : Prop where
  operands : scan.operands = []
  groups : ∀ g ∈ scan.groups, g.translated = false

theorem Group.operand_of_untranslated {g : Group} (h : g.translated = false) : g.operand = [] := by
  unfold Group.operand
  cases g.bar <;> simp [h]

theorem pipeName_infix (t : Text) : pipeName t <:+: t :=
  (List.takeWhile_prefix _).isInfix.trans (List.dropWhile_suffix _).isInfix

namespace Scan.IsUntranslated

variable {scan : Scan}

theorem opened (h : scan.IsUntranslated) (start : Nat) : (scan.opened start).IsUntranslated where
  operands := h.operands
  groups := List.forall_mem_cons.mpr ⟨rfl, h.groups⟩

theorem closed (h : scan.IsUntranslated) (stop : Nat) : (scan.closed stop).IsUntranslated := by
  obtain ⟨inner, outer, operands, arguments⟩ := scan
  cases outer with
  | nil => exact h
  | cons parent outer =>
      obtain ⟨hinner, houter⟩ := List.forall_mem_cons.mp h.groups
      refine ⟨?_, houter⟩
      change operands ++ inner.operand = []
      rw [show operands = [] from h.operands, Group.operand_of_untranslated hinner, List.nil_append]

theorem piped (h : scan.IsUntranslated) (place : Nat) :
    (scan.piped place false).IsUntranslated where
  operands := h.operands
  groups := by
    obtain ⟨hinner, houter⟩ := List.forall_mem_cons.mp h.groups
    exact List.forall_mem_cons.mpr ⟨by simp [Scan.piped, hinner], houter⟩

theorem after (h : scan.IsUntranslated) (place : Nat) {rest : Text}
    (hrest : ¬ translationPipe <:+: rest) (l : Lexeme) :
    (scan.after place rest l).IsUntranslated := by
  have hname : pipeName rest ≠ translationPipe := fun heq => hrest (heq ▸ pipeName_infix rest)
  cases l with
  | string | unclosed | or => exact h
  | char c =>
      simp only [Scan.after, hname, decide_false]
      split_ifs
      · exact h.opened _
      · exact h.closed _
      · exact h.piped _
      · exact h

theorem scanLexemes (h : scan.IsUntranslated) (place : Nat) (ls : List Lexeme)
    (hls : ¬ translationPipe <:+: textOf ls) : (scanLexemes scan place ls).operands = [] := by
  induction ls generalizing scan place with
  | nil =>
      change scan.operands ++ scan.groups.flatMap Group.operand = []
      rw [h.operands, List.nil_append, List.flatMap_eq_nil_iff]
      exact fun g hg => Group.operand_of_untranslated (h.groups g hg)
  | cons l ls ih =>
      have hrest : ¬ translationPipe <:+: textOf ls :=
        fun hin => hls (hin.trans (List.suffix_append l.text _).isInfix)
      exact ih (h.after place hrest l) (place + l.text.length) hrest

end Scan.IsUntranslated

theorem pipedKeys_eq_nil {t : Text} (h : ¬ translationPipe <:+: t) : pipedKeys t = [] := by
  have hstart : Scan.IsUntranslated {} := ⟨rfl, by simp [Scan.groups]⟩
  have hnone := hstart.scanLexemes 0 (lexemes t) (by rwa [textOf_lexemes])
  rw [← scanCode_eq_scanLexemes] at hnone
  simp [pipedKeys, hnone]

theorem readKeys_eq_nil {inWord : Bool} {t : Text} (h : ¬ "read".toList <:+: t) :
    readKeys inWord t = [] := by
  fun_induction readKeys inWord t with
  | case1 => rfl
  | case2 inWord c cs key rest hclause =>
      obtain ⟨_, hclause⟩ := Option.ite_none_left_eq_some.mp hclause
      obtain ⟨blanks, blanks', first, tail, htext, _⟩ := of_readClause?_eq_some hclause
      exact absurd ⟨[], (blanks ++ ':' :: blanks') ++ first :: tail, by simp [htext]⟩ h
  | case3 inWord c cs _ ih => exact ih fun hin => h (hin.trans (List.suffix_cons c cs).isInfix)

theorem keys_of_interpolations {t : Text} (hunits : interpolations t ≠ [])
    (hread : ¬ "read".toList <:+: t) : keys t = (interpolations t).flatMap pipedKeys := by
  simp [keys, hunits, readKeys_eq_nil hread]

/-- A source that neither mentions the translation pipe nor reads a key has no keys. -/
theorem keys_eq_nil {t : Text} (hpipe : sourceMentions t = false) (hread : ¬ "read".toList <:+: t) :
    keys t = [] := by
  have hfree : ∀ u, u <:+: t → pipedKeys u = [] := by
    intro u hu
    refine pipedKeys_eq_nil fun hin => ?_
    rw [sourceMentions, Text.occursIn_iff_infix.mpr (hin.trans hu)] at hpipe
    cases hpipe
  have hunits : (interpolations t).flatMap pipedKeys = [] :=
    List.flatMap_eq_nil_iff.mpr fun u hu => hfree u (infix_of_mem_interpolations hu)
  simp [keys, readKeys_eq_nil hread, hunits, hfree t List.infix_rfl]

end KeyLint.Expression
