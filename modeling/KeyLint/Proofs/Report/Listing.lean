import Mathlib.Data.List.Basic
import KeyLint.Proofs.Report.Codes
import KeyLint.Report.Listing
import KeyLint.Text.Width

/-!
# How a listing looks

A listing is the same text with and without colours, terminal codes aside. Its gutter is wide enough
for every line number, so the bars of all excerpts stand below each other, and the caret stands below
the column of its issue, as many blanks to the right as the text before that column is wide. A caret
that would need too many blanks is not printed, and neither is anything after it.
-/

namespace KeyLint

/-! ## Texts of issues -/

namespace Violation

/-- The texts that a finding brings along. -/
def strings : Violation → List Text
  | .mismatchedKey key expectedPrefix => [key, expectedPrefix]
  | .tooManyParts key _ | .notEnoughParts key _ => [key]
  | .noHardString text => [text]
  | .invalidPattern _ pattern reason => [pattern, reason]

end Violation

namespace Issue

/-- The texts that an issue brings along. -/
def strings : Issue → List Text
  | .violation file _ sourceLine v => file :: sourceLine :: v.strings
  | .parseError file error => [file, error]

end Issue

/-! ## Texts without an escape character -/

namespace Styled

/-- Compared by their codes, characters of a fixed text are told apart from it by evaluation. -/
@[simp] theorem escapeChar_eq_iff {c : Char} : escapeChar = c ↔ c.toNat = 0x1b := by
  rw [← Char.toNat_inj, eq_comm]
  rfl

theorem not_mem_ofNat {c : Char} (h : ¬c.isDigit) (n : Nat) : c ∉ Text.ofNat n := fun hc =>
  h (Nat.isDigit_of_mem_toDigits (by decide) (by decide) hc)

@[simp] theorem escapeChar_not_mem_ofNat (n : Nat) : escapeChar ∉ Text.ofNat n :=
  not_mem_ofNat (by decide) n

theorem escapeChar_not_mem_counted {singular plural : Text} (hsingular : escapeChar ∉ singular)
    (hplural : escapeChar ∉ plural) (n : Nat) : escapeChar ∉ Text.counted n singular plural := by
  unfold Text.counted
  split
  · exact hsingular
  · exact hplural

end Styled

namespace Violation

open Styled

theorem escapeChar_not_mem_depth {a b c d e key : Text} (kind : FileKind) (hkey : escapeChar ∉ key)
    (hwords : ∀ w ∈ [a, b, c, d, e], escapeChar ∉ w) :
    escapeChar ∉ a ++ key ++ b ++ kind.name ++ c ++ Text.ofNat kind.keyParts ++ d ++ kind.sampleKey
      ++ e := by
  have hname : escapeChar ∉ kind.name := by cases kind <;> decide +kernel
  have hsample : escapeChar ∉ kind.sampleKey := by cases kind <;> decide +kernel
  simp only [List.forall_mem_cons] at hwords
  obtain ⟨ha, hb, hc, hd, he, _⟩ := hwords
  simp [ha, hkey, hb, hname, hc, hd, hsample, he]

/-- The words of a message have no escape character, so only what the finding brings along can. -/
theorem escapeChar_not_mem_message {v : Violation} (h : ∀ s ∈ v.strings, escapeChar ∉ s) :
    escapeChar ∉ v.message := by
  cases v with
  | mismatchedKey key expectedPrefix =>
      simp only [strings, List.forall_mem_cons] at h
      obtain ⟨hkey, hprefix, _⟩ := h
      change escapeChar ∉ _ ++ key ++ _ ++ expectedPrefix ++ _
      simp [hkey, hprefix]
  | tooManyParts key kind =>
      exact escapeChar_not_mem_depth kind (h key (by simp [strings])) (by simp)
  | notEnoughParts key kind =>
      exact escapeChar_not_mem_depth kind (h key (by simp [strings])) (by simp)
  | noHardString text =>
      have htext := h text (by simp [strings])
      change escapeChar ∉ _ ++ text ++ _
      simp [htext]
  | invalidPattern option pattern reason =>
      simp only [strings, List.forall_mem_cons] at h
      obtain ⟨hpattern, hreason, _⟩ := h
      have hname : escapeChar ∉ option.name := by cases option <;> decide +kernel
      change escapeChar ∉ _ ++ option.name ++ _ ++ pattern ++ _ ++ reason ++ _
      simp [hname, hpattern, hreason]

end Violation

/-! ## Printing that stops -/

namespace Printed

open Styled

theorem append_of_isComplete {first : Printed} (h : first.isComplete) (second : Printed) :
    first ++ second = { second with runs := first.runs ++ second.runs } :=
  if_pos h

theorem append_of_not_isComplete {first : Printed} (h : ¬first.isComplete) (second : Printed) :
    first ++ second = first :=
  if_neg h

theorem append_assoc (a b c : Printed) : a ++ b ++ c = a ++ (b ++ c) := by
  obtain ⟨first, _ | _⟩ := a
  · rfl
  obtain ⟨second, _ | _⟩ := b
  · rfl
  have hruns : first ++ second ++ c.runs = first ++ (second ++ c.runs) := List.append_assoc _ _ _
  exact congrArg (Printed.mk · c.isComplete) hruns

@[simp] theorem nil_append (text : Printed) : ({} : Printed) ++ text = text :=
  rfl

@[simp] theorem append_nil (text : Printed) : text ++ ({} : Printed) = text := by
  by_cases h : text.isComplete
  · rw [append_of_isComplete h, List.append_nil, ← h]
  · rw [append_of_not_isComplete h]

@[simp] theorem all_append (runs more : Styled) : all (runs ++ more) = all runs ++ all more :=
  rfl

@[simp] theorem isComplete_all (runs : Styled) : (all runs).isComplete :=
  rfl

@[simp] theorem isComplete_append {first second : Printed} :
    (first ++ second).isComplete ↔ first.isComplete ∧ second.isComplete := by
  by_cases h : first.isComplete
  · simp [append_of_isComplete h, h]
  · simp [append_of_not_isComplete h, h]

theorem concat_cons (text : Printed) (texts : List Printed) :
    concat (text :: texts) = text ++ concat texts :=
  rfl

theorem concat_append (texts more : List Printed) :
    concat (texts ++ more) = concat texts ++ concat more := by
  induction texts with
  | nil => rfl
  | cons text texts ih => rw [List.cons_append, concat_cons, concat_cons, ih, append_assoc]

theorem isComplete_concat {texts : List Printed} :
    (concat texts).isComplete ↔ ∀ text ∈ texts, text.isComplete := by
  induction texts with
  | nil => simp [concat]
  | cons text texts ih => rw [concat_cons, isComplete_append, ih, List.forall_mem_cons]

/-- A text that could be printed to its end is the runs that were printed. -/
theorem eq_all {text : Printed} (h : text.isComplete) : text = all text.runs := by
  rw [all, ← h]

theorem isClean_runs_append {first second : Printed} (hfirst : IsClean first.runs)
    (hsecond : IsClean second.runs) : IsClean (first ++ second).runs := by
  by_cases h : first.isComplete
  · rw [append_of_isComplete h]
    exact isClean_append.mpr ⟨hfirst, hsecond⟩
  · rwa [append_of_not_isComplete h]

theorem isClean_runs_concat {texts : List Printed} (h : ∀ text ∈ texts, IsClean text.runs) :
    IsClean (concat texts).runs := by
  induction texts with
  | nil => exact isClean_nil
  | cons text texts ih =>
      obtain ⟨htext, htexts⟩ := List.forall_mem_cons.mp h
      exact isClean_runs_append htext (ih htexts)

end Printed

/-! ## Colours -/

namespace Listing

open Styled

theorem isClean_headline {issue : Issue} (h : escapeChar ∉ issue.message) :
    IsClean (headline issue) := by
  have hseverity : escapeChar ∉ issue.severity.name := by cases issue.severity <;> decide +kernel
  have hrule : escapeChar ∉ issue.rule.name := by cases issue.rule <;> decide +kernel
  simp [headline, inBold, inDimmed, plain, lineEnd, hseverity, hrule, h]

theorem isClean_location {issue : Issue} (h : escapeChar ∉ issue.file) :
    IsClean (location issue) := by
  unfold location
  split <;> simp [inColor, plain, lineEnd, h]

theorem isClean_head (issue : Issue) (hmessage : escapeChar ∉ issue.message)
    (hfile : escapeChar ∉ issue.file) : IsClean (headline issue ++ location issue) :=
  isClean_append.mpr ⟨isClean_headline hmessage, isClean_location hfile⟩

theorem isClean_caret (gutter : Nat) (severity : Severity) (column : Nat) :
    IsClean (caret gutter severity column).runs := by
  unfold caret
  split
  · simp [Printed.all, blankGutter, bar, inColor, plain, lineEnd, Text.alignRight]
  · exact isClean_nil

theorem isClean_excerpt {sourceLine : Text} (h : escapeChar ∉ sourceLine) (width : Text → Nat)
    (gutter : Nat) (severity : Severity) (position : Position) :
    IsClean (excerpt width gutter severity position sourceLine).runs := by
  have hnumbered : IsClean (numbered gutter position sourceLine) := by
    simp [numbered, blankGutter, bar, inColor, plain, lineEnd, Text.alignRight, h]
  exact Printed.isClean_runs_append hnumbered (isClean_caret gutter severity _)

theorem isClean_entry {issue : Issue} (h : ∀ s ∈ issue.strings, escapeChar ∉ s)
    (width : Text → Nat) (gutter : Nat) : IsClean (entry width gutter issue).runs := by
  have hend : IsClean (Printed.all [lineEnd]).runs := by simp [Printed.all, lineEnd, plain]
  cases issue with
  | violation file position sourceLine v =>
      simp only [Issue.strings, List.forall_mem_cons] at h
      obtain ⟨hfile, hline, hv⟩ := h
      have hmessage := Violation.escapeChar_not_mem_message hv
      have hhead := isClean_head (.violation file position sourceLine v) hmessage hfile
      have hexcerpt := isClean_excerpt hline width gutter v.severity position
      exact Printed.isClean_runs_append (Printed.isClean_runs_append hhead hexcerpt) hend
  | parseError file error =>
      simp only [Issue.strings, List.forall_mem_cons] at h
      obtain ⟨hfile, herror, _⟩ := h
      have hhead := isClean_head (.parseError file error) herror hfile
      exact Printed.isClean_runs_append (Printed.isClean_runs_append hhead isClean_nil) hend

theorem isClean_summary (issues : List Issue) : IsClean (summary issues) := by
  simp [summary, inColor, plain, failureMark, escapeChar_not_mem_counted]

theorem isClean_report {issues : List Issue}
    (h : ∀ issue ∈ issues, ∀ s ∈ issue.strings, escapeChar ∉ s) (width : Text → Nat) :
    IsClean (report width issues).runs := by
  unfold report
  split
  · exact isClean_nil
  · refine Printed.isClean_runs_append (Printed.isClean_runs_concat fun text htext => ?_)
      (isClean_summary issues)
    obtain ⟨issue, hissue, rfl⟩ := List.mem_map.mp htext
    exact isClean_entry (h issue hissue) width _

theorem isClean_success (files : Nat) : IsClean (success files) := by
  simp [success, inColor, plain, lineEnd, successMark, escapeChar_not_mem_counted]

theorem isClean_parseNotes (count : Nat) (verbose : Bool) :
    ∀ line ∈ parseNotes count verbose, IsClean line := by
  unfold parseNotes
  split
  · simp
  · simp [warningLabel, inBold, inColor, plain]

end Listing

/-! ## The gutter -/

namespace Text

theorem length_ofNat_mono {m n : Nat} (h : m ≤ n) : (ofNat m).length ≤ (ofNat n).length := by
  have hiff : ∀ k, (ofNat k).length ≤ (ofNat n).length ↔ k < 10 ^ (ofNat n).length := fun k =>
    Nat.length_toDigits_le_iff (by decide) (List.length_pos_iff.mpr Nat.toDigits_ne_nil)
  have hn : n < 10 ^ (ofNat n).length := (hiff n).mp (Nat.le_refl _)
  exact (hiff m).mpr (Nat.lt_of_le_of_lt h hn)

theorem length_alignRight {width : Nat} {t : Text} (h : t.length ≤ width) :
    (alignRight width t).length = width := by
  simp [alignRight, Nat.sub_add_cancel h]

@[simp] theorem alignRight_nil (width : Nat) : alignRight width [] = List.replicate width ' ' := by
  simp [alignRight]

end Text

namespace Listing

open Styled

theorem render_false (runs : Styled) : render false runs = runs.flatMap Run.text :=
  rfl

/-- The gutter has room for the line number of every finding. -/
theorem length_ofNat_le_gutterWidth {issues : List Issue} {file sourceLine : Text}
    {position : Position} {v : Violation} (h : .violation file position sourceLine v ∈ issues) :
    (Text.ofNat position.line).length ≤ gutterWidth issues := by
  have hmem : position.line ∈ issues.filterMap fun
      | .violation _ position _ _ => some position.line
      | .parseError .. => none := List.mem_filterMap.mpr ⟨_, h, rfl⟩
  unfold gutterWidth
  dsimp only
  split
  · next hmax =>
      exact absurd hmem (List.eq_nil_iff_forall_not_mem.mp (List.max?_eq_none_iff.mp hmax) _)
  · next line hmax => exact Text.length_ofNat_mono ((List.max?_eq_some_iff.mp hmax).2 _ hmem)

/-- An issue whose caret can be printed, for a measure of texts. -/
def Fits (width : Text → Nat) : Issue → Prop
  | .violation _ position sourceLine _ => indentation width position sourceLine ≤ maxPadding
  | .parseError .. => True

/-- The lines of an excerpt: a gutter without a number, the source line behind its number, and a
caret as far from the bar as the source line before the column is wide. -/
def excerptLines (width : Text → Nat) (gutter : Nat) (position : Position) (sourceLine : Text) :
    List Text :=
  [List.replicate gutter ' ' ++ [' ', '|'],
   Text.alignRight gutter (Text.ofNat position.line) ++ [' ', '|', ' '] ++ sourceLine,
   List.replicate gutter ' ' ++ [' ', '|', ' ']
     ++ List.replicate (indentation width position sourceLine) ' ' ++ ['^']]

variable {width : Text → Nat}

theorem render_excerpt {position : Position} {sourceLine : Text}
    (h : indentation width position sourceLine ≤ maxPadding) (gutter : Nat) (severity : Severity) :
    (excerpt width gutter severity position sourceLine).isComplete ∧
      render false (excerpt width gutter severity position sourceLine).runs
        = (excerptLines width gutter position sourceLine).flatMap (· ++ ['\n']) := by
  rw [excerpt, caret, if_pos h, Printed.append_of_isComplete rfl]
  refine ⟨rfl, ?_⟩
  simp [render_false, Printed.all, numbered, excerptLines, blankGutter, bar, inColor, plain, lineEnd]

theorem render_excerpt_stopped {position : Position} {sourceLine : Text}
    (h : ¬indentation width position sourceLine ≤ maxPadding) (gutter : Nat) (severity : Severity) :
    ¬(excerpt width gutter severity position sourceLine).isComplete ∧
      render false (excerpt width gutter severity position sourceLine).runs
        = ((excerptLines width gutter position sourceLine).take 2).flatMap (· ++ ['\n']) := by
  rw [excerpt, caret, if_neg h, Printed.append_of_isComplete rfl]
  refine ⟨Bool.false_ne_true, ?_⟩
  simp [render_false, Printed.all, Printed.stopped, numbered, excerptLines, blankGutter, bar,
    inColor, plain, lineEnd]

/-- The entry of an issue is printed to its end exactly if the caret of the issue can be printed. -/
theorem isComplete_entry_iff (gutter : Nat) (issue : Issue) :
    (entry width gutter issue).isComplete ↔ Fits width issue := by
  cases issue with
  | violation file position sourceLine v =>
      by_cases h : indentation width position sourceLine ≤ maxPadding
      · simp [entry, Fits, h, (render_excerpt h gutter _).1]
      · simp [entry, Fits, h, (render_excerpt_stopped h gutter _).1]
  | parseError file error => simp [entry, Fits]

theorem isComplete_report_iff (issues : List Issue) :
    (report width issues).isComplete ↔ ∀ issue ∈ issues, Fits width issue := by
  unfold report
  split
  · next h => simp [List.isEmpty_iff.mp h]
  · simp [Printed.isComplete_concat, isComplete_entry_iff]

theorem idxOf?_append_cons {c : Char} {before : Text} (h : c ∉ before) (after : Text) :
    (before ++ c :: after).idxOf? c = some before.length := by
  induction before with
  | nil => simp [List.idxOf?_cons]
  | cons d before ih =>
      obtain ⟨hd, hbefore⟩ := List.ne_and_not_mem_of_not_mem_cons h
      simp [List.idxOf?_cons, Ne.symm hd, ih hbefore]

/-- A bar behind a gutter stands in the column after the gutter and a blank. -/
theorem idxOf?_bar {gutter : Nat} {t : Text} (hlength : t.length = gutter) (hbar : '|' ∉ t)
    (after : Text) : (t ++ ' ' :: '|' :: after).idxOf? '|' = some (gutter + 1) := by
  have hleft : '|' ∉ t ++ [' '] := by simp [hbar]
  have hcolumn := idxOf?_append_cons hleft after
  rwa [List.append_assoc, List.length_append, hlength] at hcolumn

theorem idxOf?_excerptLines {gutter : Nat} {position : Position}
    (h : (Text.ofNat position.line).length ≤ gutter) (width : Text → Nat) (sourceLine : Text) :
    ∀ line ∈ excerptLines width gutter position sourceLine,
      line.idxOf? '|' = some (gutter + 1) := by
  have hdigits : '|' ∉ Text.ofNat position.line := not_mem_ofNat (by decide) _
  have hnumber : '|' ∉ Text.alignRight gutter (Text.ofNat position.line) := by
    simp [Text.alignRight, hdigits]
  have hblank := idxOf?_bar (List.length_replicate (n := gutter) (a := ' ')) (by simp)
  simp only [excerptLines, List.forall_mem_cons, List.append_assoc, List.cons_append,
    List.nil_append]
  exact ⟨hblank _, idxOf?_bar (Text.length_alignRight h) hnumber _, hblank _, by simp⟩

/-! ## Listings with and without colours -/

/-- What stands above the excerpt of an issue: the entries of the issues before it, and its own first
two lines. -/
def above (width : Text → Nat) (gutter : Nat) (before : List Issue) (issue : Issue) : Styled :=
  (Printed.concat (before.map (entry width gutter))).runs ++ headline issue ++ location issue

/-- What stands below the excerpt of an issue: an empty line, the entries of the issues after it, and
the summary. -/
def below (width : Text → Nat) (gutter : Nat) (issues after : List Issue) : Printed :=
  .all [lineEnd] ++ .concat (after.map (entry width gutter)) ++ .all (summary issues)

theorem getLast?_render_above (gutter : Nat) (before : List Issue) (issue : Issue) :
    (render false (above width gutter before issue)).getLast? = some '\n' := by
  have hend : location issue = (location issue).dropLast ++ [lineEnd] := rfl
  rw [above, hend, ← List.append_assoc, render_false, List.flatMap_append]
  simp [lineEnd, plain]

/-- A listing, taken apart at an excerpt that it comes to. -/
theorem report_eq_above_append {issues before after : List Issue} {file sourceLine : Text}
    {position : Position} {v : Violation}
    (h : issues = before ++ .violation file position sourceLine v :: after)
    (hbefore : ∀ issue ∈ before, Fits width issue) :
    report width issues
      = .all (above width (gutterWidth issues) before (.violation file position sourceLine v))
        ++ (excerpt width (gutterWidth issues) v.severity position sourceLine
          ++ below width (gutterWidth issues) issues after) := by
  have hne : ¬issues.isEmpty := by simp [h]
  rw [report, if_neg hne, below]
  generalize gutterWidth issues = gutter
  generalize summary issues = last
  have hcomplete : (Printed.concat (before.map (entry width gutter))).isComplete :=
    Printed.isComplete_concat.mpr fun text htext => by
      obtain ⟨issue, hissue, rfl⟩ := List.mem_map.mp htext
      exact (isComplete_entry_iff gutter issue).mpr (hbefore issue hissue)
  rw [h, List.map_append, List.map_cons, Printed.concat_append, Printed.concat_cons,
    Printed.eq_all hcomplete, above, entry]
  simp only [Printed.all_append, Printed.append_assoc]
  rfl

theorem render_report {issues before after : List Issue} {file sourceLine : Text}
    {position : Position} {v : Violation}
    (h : issues = before ++ .violation file position sourceLine v :: after)
    (hbefore : ∀ issue ∈ before, Fits width issue)
    (hfits : Fits width (.violation file position sourceLine v)) :
    render false (report width issues).runs
      = render false
          (above width (gutterWidth issues) before (.violation file position sourceLine v))
        ++ (excerptLines width (gutterWidth issues) position sourceLine).flatMap (· ++ ['\n'])
        ++ render false (below width (gutterWidth issues) issues after).runs := by
  obtain ⟨hcomplete, hlines⟩ := render_excerpt hfits (gutterWidth issues) v.severity
  rw [report_eq_above_append h hbefore, Printed.append_of_isComplete rfl,
    Printed.append_of_isComplete hcomplete, ← hlines]
  simp [render_false, Printed.all]

theorem render_report_stopped {issues before after : List Issue} {file sourceLine : Text}
    {position : Position} {v : Violation}
    (h : issues = before ++ .violation file position sourceLine v :: after)
    (hbefore : ∀ issue ∈ before, Fits width issue)
    (hfits : ¬Fits width (.violation file position sourceLine v)) :
    render false (report width issues).runs
      = render false
          (above width (gutterWidth issues) before (.violation file position sourceLine v))
        ++ ((excerptLines width (gutterWidth issues) position sourceLine).take 2).flatMap
          (· ++ ['\n']) := by
  obtain ⟨hstopped, hlines⟩ := render_excerpt_stopped hfits (gutterWidth issues) v.severity
  rw [report_eq_above_append h hbefore, Printed.append_of_isComplete rfl,
    Printed.append_of_not_isComplete hstopped, ← hlines]
  simp [render_false, Printed.all]

/-- Colours change nothing in a listing but terminal codes. A listing is printed to its end exactly
if no caret stands too far to the right. In the listing itself, the three lines of every excerpt begin
at the beginning of a line, their bars all stand in one column, and the caret has as many blanks
before it as the text before its column is wide. The first caret that stands too far to the right is
missing, with all that would come after it. -/
theorem listing_alike_in_colors (width : Text → Nat) (issues : List Issue) (files count : Nat)
    (verbose : Bool) :
    ((∀ issue ∈ issues, ∀ s ∈ issue.strings, escapeChar ∉ s) →
      withoutCodes false (render true (report width issues).runs)
        = render false (report width issues).runs) ∧
    withoutCodes false (render true (success files)) = render false (success files) ∧
    withoutCodes false (renderLines true (parseNotes count verbose))
      = renderLines false (parseNotes count verbose) ∧
    ((report width issues).isComplete ↔ ∀ issue ∈ issues, Fits width issue) ∧
    ∀ before file position sourceLine v after,
      issues = before ++ .violation file position sourceLine v :: after →
      (∀ issue ∈ before, Fits width issue) →
      (Fits width (.violation file position sourceLine v) →
        render false (report width issues).runs
          = render false
              (above width (gutterWidth issues) before (.violation file position sourceLine v))
            ++ (excerptLines width (gutterWidth issues) position sourceLine).flatMap (· ++ ['\n'])
            ++ render false (below width (gutterWidth issues) issues after).runs) ∧
      (¬Fits width (.violation file position sourceLine v) →
        render false (report width issues).runs
          = render false
              (above width (gutterWidth issues) before (.violation file position sourceLine v))
            ++ ((excerptLines width (gutterWidth issues) position sourceLine).take 2).flatMap
              (· ++ ['\n'])) ∧
      (render false (above width (gutterWidth issues) before
        (.violation file position sourceLine v))).getLast? = some '\n' ∧
      ∀ line ∈ excerptLines width (gutterWidth issues) position sourceLine,
        line.idxOf? '|' = some (gutterWidth issues + 1) := by
  refine ⟨fun h => withoutCodes_render (isClean_report h width),
    withoutCodes_render (isClean_success files),
    withoutCodes_renderLines (isClean_parseNotes count verbose), isComplete_report_iff issues, ?_⟩
  intro before file position sourceLine v after hissues hbefore
  have hmem : .violation file position sourceLine v ∈ issues := by simp [hissues]
  exact ⟨render_report hissues hbefore, render_report_stopped hissues hbefore,
    getLast?_render_above _ before _,
    idxOf?_excerptLines (length_ofNat_le_gutterWidth hmem) width sourceLine⟩

/-- A finding behind wide characters, and one in a line whose number has two digits. -/
def wideFindings : List Issue :=
  [.violation "a.component.html".toList ⟨7, 4⟩ "日本語Save".toList (.noHardString "Save".toList),
   .violation "a.component.html".toList ⟨12, 1⟩ "Close".toList (.noHardString "Close".toList)]

/-- The caret stands below the first letter after three characters of two columns each. -/
theorem listing_alike_in_colors_of_wideFindings :
    (∀ issue ∈ wideFindings, ∀ s ∈ issue.strings, escapeChar ∉ s) ∧
      withoutCodes false (render true (report Text.width wideFindings).runs)
        = render false (report Text.width wideFindings).runs ∧
      (report Text.width wideFindings).isComplete ∧
      gutterWidth wideFindings = 2 ∧
      excerptLines Text.width 2 ⟨7, 4⟩ "日本語Save".toList
        = ["   |".toList, " 7 | 日本語Save".toList, "   |       ^".toList] ∧
      ∀ line ∈ excerptLines Text.width 2 ⟨7, 4⟩ "日本語Save".toList,
        line.idxOf? '|' = some 3 := by
  have hclean : ∀ issue ∈ wideFindings, ∀ s ∈ issue.strings, escapeChar ∉ s := by decide +kernel
  have hgutter : gutterWidth wideFindings = 2 := by decide +kernel
  obtain ⟨hcolors, _, _, hcomplete, hexcerpts⟩ :=
    listing_alike_in_colors Text.width wideFindings 1 0 false
  obtain ⟨_, _, _, hbars⟩ := hexcerpts [] _ _ _ _ _ rfl (by simp)
  rw [hgutter] at hbars
  have hfits : ∀ issue ∈ wideFindings, Fits Text.width issue := by
    simp only [wideFindings, List.forall_mem_cons, Fits, indentation]
    exact ⟨by decide +kernel, by decide +kernel, by simp⟩
  exact ⟨hclean, hcolors hclean, hcomplete.mpr hfits, hgutter, by decide +kernel, hbars⟩

/-- A finding behind as many letters as there are characters in a line. -/
def farFinding (letters : Nat) : Issue :=
  .violation "a.component.ts".toList ⟨1, letters + 1⟩ (List.replicate letters 'a')
    (.noHardString "Save".toList)

theorem scan_replicate_letter (letters : Nat) :
    Text.scan (List.replicate letters 'a') = ((letters : Int), {}) := by
  induction letters with
  | zero => rfl
  | succ letters ih =>
      have hletter : Text.step 'a' {} = (1, {}) := by decide +kernel
      rw [List.replicate_succ, Text.scan, List.foldr_cons, ← Text.scan, ih]
      simp only [hletter, Int.add_comm, Int.natCast_add, Int.cast_ofNat_Int]

theorem indentation_farFinding (letters : Nat) :
    indentation Text.width ⟨1, letters + 1⟩ (List.replicate letters 'a') = letters := by
  have htake : (List.replicate letters 'a').take letters = List.replicate letters 'a' :=
    List.take_of_length_le (by simp)
  simp [indentation, Text.width, htake, scan_replicate_letter]

/-- Behind more letters than a text can be padded to, there is no caret. -/
theorem caret_not_mem_report_farFinding {letters : Nat} (h : maxPadding < letters) :
    ¬(report Text.width [farFinding letters]).isComplete ∧
      '^' ∉ render false (report Text.width [farFinding letters]).runs := by
  have hfits : ¬Fits Text.width (farFinding letters) := by
    rw [farFinding, Fits, indentation_farFinding]
    exact Nat.not_le_of_lt h
  refine ⟨by simpa [isComplete_report_iff] using hfits, ?_⟩
  have hissues : [farFinding letters] = [] ++ .violation "a.component.ts".toList ⟨1, letters + 1⟩
      (List.replicate letters 'a') (.noHardString "Save".toList) :: [] := rfl
  have hheadline : '^' ∉ render false (headline (farFinding letters)) :=
    show '^' ∉ render false (headline (farFinding 0)) by decide +kernel
  have hlocation : '^' ∉ render false (location (farFinding letters)) := by
    have hcolumn := not_mem_ofNat (c := '^') (by decide)
    simp [render_false, location, inColor, plain, lineEnd, farFinding, Issue.place, Issue.file,
      hcolumn]
  have hlines : ∀ line ∈ (excerptLines Text.width (gutterWidth [farFinding letters])
      ⟨1, letters + 1⟩ (List.replicate letters 'a')).take 2, '^' ∉ line := by
    have hline := not_mem_ofNat (c := '^') (by decide) 1
    simp [excerptLines, Text.alignRight, hline]
  rw [render_report_stopped hissues (by simp) hfits]
  simp only [above, render, List.flatMap_append, List.mem_append, not_or]
  refine ⟨⟨⟨List.not_mem_nil, hheadline⟩, hlocation⟩, fun hcaret => ?_⟩
  obtain ⟨line, hline, hcaret⟩ := List.mem_flatMap.mp hcaret
  have hmem : '^' ∈ line := by simpa using hcaret
  exact hlines line hline hmem

/-- A finding behind 65536 letters is reported without a caret. -/
theorem listing_without_caret_of_farFinding :
    (∀ issue ∈ [farFinding 65536], ∀ s ∈ issue.strings, escapeChar ∉ s) ∧
      indentation Text.width ⟨1, 65537⟩ (List.replicate 65536 'a') = 65536 ∧
      ¬(report Text.width [farFinding 65536]).isComplete ∧
      '^' ∉ render false (report Text.width [farFinding 65536]).runs := by
  have hclean : ∀ letters, ∀ issue ∈ [farFinding letters], ∀ s ∈ issue.strings, escapeChar ∉ s := by
    simp [farFinding, Issue.strings, Violation.strings]
  exact ⟨hclean _, indentation_farFinding _, caret_not_mem_report_farFinding (by decide)⟩

end Listing

end KeyLint
