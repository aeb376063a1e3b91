import Mathlib.Data.List.Forall2
import KeyLint.Issue
import KeyLint.Proofs.Checker.Rules
import KeyLint.Proofs.Lines

/-!
# Scripts with a byte order mark

A byte order mark at the beginning of a script is not part of the script: its findings are those of
the script without the mark, spans included. Positions, though, are looked up in the text that was
read, where everything stands three bytes later. So a finding is reported three bytes before its
place, and spans that are shifted by the mark would be the right ones.
-/

namespace KeyLint

/-- The byte order mark. -/
def mark : Char := '\ufeff'

/-! ## Positions after a mark -/

/-- Where something stands in a text with a mark before it, from where it stands in the text. -/
def Position.afterMark (p : Position) : Position :=
  ⟨p.line, if p.line = 1 then p.column + 1 else p.column⟩

theorem Position.afterMark_after (p : Position) (hline : 1 ≤ p.line) (c : Char) :
    p.afterMark.after c = (p.after c).afterMark := by
  by_cases hc : c = '\n'
  · have hlater : p.line ≠ 0 := by omega
    simp [Position.after, afterMark, hc, hlater]
  · by_cases hfirst : p.line = 1
    · simp [Position.after, afterMark, hc, hfirst]
    · simp [Position.after, afterMark, hc, hfirst]

namespace Text

theorem foldl_after_afterMark (p : Position) (hline : 1 ≤ p.line) (t : Text) :
    t.foldl Position.after p.afterMark = (t.foldl Position.after p).afterMark := by
  induction t generalizing p with
  | nil => rfl
  | cons c t ih =>
      have hnext : 1 ≤ (p.after c).line := by
        unfold Position.after
        split
        · exact Nat.le_add_left 1 p.line
        · exact hline
      rw [List.foldl_cons, List.foldl_cons, p.afterMark_after hline, ih (p.after c) hnext]

/-- Behind the mark every place is where it was, one column later in the first line. -/
theorem position_mark (before rest : Text) :
    position (mark :: (before ++ rest)) (3 + bytes before)
      = (position (before ++ rest) (bytes before)).afterMark := by
  have hsize : 3 + bytes before = bytes (mark :: before) := rfl
  rw [hsize, position, position, ← List.cons_append, advance_append, advance_append,
    List.foldl_cons]
  exact foldl_after_afterMark ⟨1, 1⟩ (Nat.le_refl 1) before

theorem position_mark_of_lt {n : Nat} (hn : n < 3) (t : Text) :
    position (mark :: t) n = ⟨1, 1⟩ := by
  have hsize : mark.utf8Size = 3 := by decide
  cases n with
  | zero => rfl
  | succ n =>
      rw [position, advance, if_neg (by omega)]

end Text

/-! ## Findings after a mark -/

/-- A finding about the settings, which stands nowhere in the text. -/
def Diagnostic.IsRefusedPattern (d : Diagnostic) : Prop :=
  ∃ option pattern reason, d.violation = .invalidPattern option pattern reason

/-- The findings `there` are the findings `here` in a text with a mark before it: the same in the
same order, each of them three bytes later unless it stands nowhere in the text. -/
def MovedByMark (here there : List Diagnostic) : Prop :=
  List.Forall₂ (fun d e => e.violation = d.violation ∧
    (¬ d.IsRefusedPattern → e.span = d.span.shift 3)) here there

theorem movedByMark_self_iff {ds : List Diagnostic} :
    MovedByMark ds ds ↔ ∀ d ∈ ds, d.IsRefusedPattern := by
  rw [MovedByMark, List.forall₂_same]
  refine forall₂_congr fun d _ => ?_
  have hmoved : d.span ≠ d.span.shift 3 := by
    intro heq
    have hstart : d.span.start = d.span.start + 3 := congrArg Span.start heq
    omega
  simp [hmoved]

theorem dropMark_of_head? {s : Text} (hs : s.head? ≠ some mark) : Script.dropMark s = s := by
  unfold Script.dropMark
  split
  · exact absurd rfl hs
  · rfl

theorem parse_mark {s : Text} (hs : s.head? ≠ some mark) :
    Script.parse (mark :: s) = Script.parse s := by
  have hmarked : Script.dropMark (mark :: s) = s := rfl
  rw [Script.parse, Script.parse, hmarked, dropMark_of_head? hs]

/-- A file that ends like a script is not read as a template. -/
theorem not_html_of_ts {file : Text} (hfile : ".ts".toList <:+ file) :
    ¬ ".html".toList <:+ file := by
  intro hhtml
  rcases List.suffix_or_suffix_of_suffix hfile hhtml with h | h <;> exact absurd h (by decide)

theorem sourceEvents_mark {file s : Text} (hfile : ".ts".toList <:+ file)
    (hs : s.head? ≠ some mark) : sourceEvents file (mark :: s) = sourceEvents file s := by
  have hnot : ¬ (Text.before? ".html".toList file).isSome = true :=
    fun h => not_html_of_ts hfile (Text.isSome_before?_iff.mp h)
  rw [sourceEvents, sourceEvents, if_neg hnot, if_neg hnot, parse_mark hs]

theorem analyze_mark {settings : Settings} {rules : RuleSet} {file s : Text}
    (hfile : ".ts".toList <:+ file) (hs : s.head? ≠ some mark) :
    analyze settings rules file (mark :: s) = analyze settings rules file s := by
  by_cases hcontext : FileContext.ofFile? settings.naming file = none
  · rw [analyze_of_no_context hcontext, analyze_of_no_context hcontext]
  · rw [analyze_of_context hcontext, analyze_of_context hcontext, sourceEvents_mark hfile hs]

/-- A script with a mark before it has the findings of the script without the mark, at the same
spans. So they move with the mark only if none of them stands in the text. Each is reported three
bytes before its place in the text that was read: at what stands three bytes earlier in the script,
or at the mark if its span begins in the first three bytes. -/
theorem marked_script_findings {naming : NamingOptions} {wording : WordingOptions}
    {rules : RuleSet} {file s : Text} {ds : List Diagnostic} (hfile : ".ts".toList <:+ file)
    (hs : s.head? ≠ some mark)
    (hfound : analyze (.ofOptions naming wording) rules file s = .ok ds) :
    analyze (.ofOptions naming wording) rules file (mark :: s) = .ok ds ∧
      (MovedByMark ds ds ↔ ∀ d ∈ ds, d.IsRefusedPattern) ∧
      ∀ d ∈ ds,
        (∀ before rest, s = before ++ rest → d.span.start = 3 + Text.bytes before →
          (Issue.ofDiagnostic file (mark :: s) d).place
            = (Text.position s (Text.bytes before)).afterMark) ∧
        (d.span.start < 3 → (Issue.ofDiagnostic file (mark :: s) d).place = ⟨1, 1⟩) := by
  refine ⟨(analyze_mark hfile hs).trans hfound, movedByMark_self_iff, fun d _ => ⟨?_, ?_⟩⟩
  · rintro before rest rfl hstart
    rw [Issue.ofDiagnostic, Issue.place, hstart]
    exact Text.position_mark before rest
  · intro hstart
    exact Text.position_mark_of_lt hstart s

/-- A key in the second line of a script that is reported in the first line. -/
theorem marked_script_finding_in_first_line :
    Text.position "t.translate(\n'b.c')".toList 13 = ⟨2, 1⟩ ∧
      analyze (.ofOptions {} {}) {} "a.component.ts".toList (mark :: "t.translate(\n'b.c')".toList)
        = .ok [⟨⟨13, 18⟩, .mismatchedKey "b.c".toList "a".toList⟩] ∧
      (Issue.ofDiagnostic "a.component.ts".toList (mark :: "t.translate(\n'b.c')".toList)
        ⟨⟨13, 18⟩, .mismatchedKey "b.c".toList "a".toList⟩).place = ⟨1, 12⟩ := by
  have hfile : ".ts".toList <:+ "a.component.ts".toList := by decide
  have hfound : analyze (.ofOptions {} {}) {} "a.component.ts".toList
      "t.translate(\n'b.c')".toList = .ok [⟨⟨13, 18⟩, .mismatchedKey "b.c".toList "a".toList⟩] := by
    decide +kernel
  obtain ⟨hmarked, _, hplace⟩ := marked_script_findings hfile (by decide) hfound
  refine ⟨by decide, hmarked, ?_⟩
  exact (hplace _ List.mem_cons_self).1 "t.translat".toList "e(\n'b.c')".toList rfl (by decide)

/-- Findings do not move with a mark. -/
theorem not_movedByMark :
    ¬ ∀ (naming : NamingOptions) (wording : WordingOptions) (rules : RuleSet) (file s : Text)
      (ds : List Diagnostic), ".ts".toList <:+ file → FileContext.ofFile? naming file ≠ none →
      s.head? ≠ some mark → analyze (.ofOptions naming wording) rules file s = .ok ds →
      ∃ ds', analyze (.ofOptions naming wording) rules file (mark :: s) = .ok ds' ∧
        MovedByMark ds ds' := by
  intro hall
  have hfound : analyze (.ofOptions {} {}) {} "a.component.ts".toList "t.translate('b.c')".toList
      = .ok [⟨⟨12, 17⟩, .mismatchedKey "b.c".toList "a".toList⟩] := by
    decide +kernel
  have hmarked : analyze (.ofOptions {} {}) {} "a.component.ts".toList
      (mark :: "t.translate('b.c')".toList)
        = .ok [⟨⟨12, 17⟩, .mismatchedKey "b.c".toList "a".toList⟩] := by
    decide +kernel
  obtain ⟨ds, hds, hmoved⟩ :=
    hall {} {} {} _ _ _ (by decide) (by decide +kernel) (by decide) hfound
  rw [hmarked] at hds
  cases hds
  obtain ⟨_, _, _, hpattern⟩ := movedByMark_self_iff.mp hmoved _ List.mem_cons_self
  cases hpattern

end KeyLint
