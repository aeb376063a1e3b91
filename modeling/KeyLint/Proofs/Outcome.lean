import Mathlib.Data.Char
import Mathlib.Data.List.Lex
import Mathlib.Data.Prod.Lex
import KeyLint.Command.Run

/-!
# The outcome of a check does not depend on the order of the files

Issues are compared by file, place, rule and message, so that different issues can compare equal.
Sorting is stable: issues that compare equal stay in the order in which they were found. Such issues
always belong to one file, and each file is analysed on its own; hence the files may be analysed in
any order.
-/

namespace KeyLint

/-! ## The order of issues -/

/-- Texts are compared character by character. -/
theorem Text.compares_cmp (s t : Text) : (Text.cmp s t).Compares s t := by
  induction s generalizing t with
  | nil =>
      cases t with
      | nil => rfl
      | cons d ds => exact List.nil_lt_cons d ds
  | cons c cs ih =>
      cases t with
      | nil => exact List.nil_lt_cons c cs
      | cons d ds =>
          rw [Text.cmp]
          split
          · next hlt => exact List.cons_lt_cons_iff.mpr (.inl hlt)
          · next hle =>
              split
              · next hgt => exact List.cons_lt_cons_iff.mpr (.inl hgt)
              · next hge =>
                  obtain rfl : c = d := le_antisymm (not_lt.mp hge) (not_lt.mp hle)
                  cases hcmp : Text.cmp cs ds with
                  | lt => exact List.cons_lt_cons_iff.mpr (.inr ⟨rfl, (ih ds).eq_lt.mp hcmp⟩)
                  | eq => exact congrArg (c :: ·) ((ih ds).eq_eq.mp hcmp)
                  | gt => exact List.cons_lt_cons_iff.mpr (.inr ⟨rfl, (ih ds).eq_gt.mp hcmp⟩)

namespace Issue

/-- What an issue is listed by: its file, then its line and column, then its rule, then its message.
A file that could not be read is listed at line 0 and column 0. -/
def sortKey (issue : Issue) : Text ×ₗ ℕ ×ₗ ℕ ×ₗ ℕ ×ₗ Text :=
  toLex (issue.file, toLex (issue.place.line, toLex (issue.place.column,
    toLex (issue.rule.rank, issue.message))))

theorem le_iff {a b : Issue} : le a b = true ↔ a.sortKey ≤ b.sortKey := by
  have hmessage : (Text.cmp a.message b.message).isLE = true ↔ a.message ≤ b.message := by
    rw [Ordering.isLE_iff_ne_gt, ← not_lt, ← (Text.compares_cmp _ _).eq_gt]
  simp only [le, cmp, sortKey, Ordering.isLE_then_iff_or, (Text.compares_cmp _ _).eq_lt,
    (Text.compares_cmp _ _).eq_eq, compare_lt_iff_lt, compare_eq_iff_eq,
    Prod.Lex.toLex_le_toLex, hmessage]

theorem le_of_le_of_le (a b c : Issue) (hab : le a b = true) (hbc : le b c = true) :
    le a c = true :=
  le_iff.mpr ((le_iff.mp hab).trans (le_iff.mp hbc))

theorem le_or_le (a b : Issue) : (le a b || le b a) = true := by
  rw [Bool.or_eq_true, le_iff, le_iff]
  exact le_total a.sortKey b.sortKey

theorem file_eq_of_sortKey_eq {a b : Issue} (h : a.sortKey = b.sortKey) : a.file = b.file :=
  congrArg (fun key => (ofLex key).1) h

/-! ## Sorting -/

/-- The issues of a list that compare equal to `a`, in their order. -/
def alike (a : Issue) (issues : List Issue) : List Issue :=
  issues.filter fun b => b.sortKey = a.sortKey

theorem mem_alike {a b : Issue} {issues : List Issue} :
    b ∈ alike a issues ↔ b ∈ issues ∧ b.sortKey = a.sortKey := by
  simp [alike]

theorem sort_perm (issues : List Issue) : (sort issues).Perm issues :=
  List.mergeSort_perm issues le

theorem pairwise_sort (issues : List Issue) :
    (sort issues).Pairwise fun a b => a.sortKey ≤ b.sortKey :=
  (List.pairwise_mergeSort le_of_le_of_le le_or_le issues).imp le_iff.mp

/-- Issues that compare equal stay in their order. -/
theorem alike_sort (a : Issue) (issues : List Issue) : alike a (sort issues) = alike a issues := by
  have hequal : (alike a issues).Pairwise fun b c => le b c = true := by
    refine List.pairwise_of_forall_mem_list fun b hb c hc => le_iff.mpr ?_
    rw [(mem_alike.mp hb).2, (mem_alike.mp hc).2]
  have hsublist : (alike a issues).Sublist (alike a (sort issues)) := by
    have hsort := List.sublist_mergeSort le_of_le_of_le le_or_le hequal List.filter_sublist
    simpa [alike, sort] using hsort.filter fun b => b.sortKey = a.sortKey
  have hperm : (alike a (sort issues)).Perm (alike a issues) := (sort_perm issues).filter _
  exact (hsublist.eq_of_length hperm.length_eq.symm).symm

/-- Issues that compare equal are about one file. -/
theorem alike_filter_file (a : Issue) (issues : List Issue) :
    alike a (issues.filter fun b => b.file = a.file) = alike a issues := by
  rw [alike, alike, List.filter_filter]
  refine List.filter_congr fun b _ => ?_
  by_cases hkey : b.sortKey = a.sortKey
  · simp [hkey, file_eq_of_sortKey_eq hkey]
  · simp [hkey]

theorem mem_iff_of_alike_eq {l m : List Issue} (h : ∀ a, alike a l = alike a m) (a : Issue) :
    a ∈ l ↔ a ∈ m := by
  have ha : a ∈ alike a l ↔ a ∈ alike a m := by rw [h a]
  simpa [mem_alike] using ha

/-- A sorted list is known from the issues that compare equal, class by class. -/
theorem eq_of_alike_eq {l m : List Issue} (hl : l.Pairwise fun a b => a.sortKey ≤ b.sortKey)
    (hm : m.Pairwise fun a b => a.sortKey ≤ b.sortKey) (h : ∀ a, alike a l = alike a m) :
    l = m := by
  have hmem := mem_iff_of_alike_eq h
  induction l generalizing m with
  | nil =>
      cases m with
      | nil => rfl
      | cons b m => exact absurd ((hmem b).mpr List.mem_cons_self) List.not_mem_nil
  | cons a l ih =>
      cases m with
      | nil => exact absurd ((hmem a).mp List.mem_cons_self) List.not_mem_nil
      | cons b m =>
          have hkey : a.sortKey = b.sortKey := by
            apply le_antisymm
            · rcases List.mem_cons.mp ((hmem b).mpr List.mem_cons_self) with rfl | hb
              · exact le_rfl
              · exact List.rel_of_pairwise_cons hl hb
            · rcases List.mem_cons.mp ((hmem a).mp List.mem_cons_self) with rfl | ha
              · exact le_rfl
              · exact List.rel_of_pairwise_cons hm ha
          -- The two heads compare equal, so that both come first in their class.
          obtain ⟨rfl, -⟩ : a = b ∧ alike a l = alike a m := by
            simpa [alike, hkey] using h a
          have htail : ∀ c, alike c l = alike c m := by
            intro c
            have hc := h c
            by_cases hac : a.sortKey = c.sortKey <;> simpa [alike, hac] using hc
          rw [ih hl.of_cons hm.of_cons htail (mem_iff_of_alike_eq htail)]

end Issue

/-! ## Issues by file -/

/-- Files with the issues that were found in them: no file is listed twice, and every issue is about
the file that it is listed for. -/
structure ByFile (found : List (Text × List Issue)) : Prop where
  nodup : (found.map Prod.fst).Nodup
  file_eq : ∀ entry ∈ found, ∀ issue ∈ entry.2, issue.file = entry.1

namespace ByFile

variable {found found' : List (Text × List Issue)}

theorem perm (h : ByFile found) (hperm : found'.Perm found) : ByFile found' where
  nodup := (hperm.map Prod.fst).nodup_iff.mpr h.nodup
  file_eq := fun entry hentry => h.file_eq entry (hperm.mem_iff.mp hentry)

/-- What was found in one file can be told from all that was found. -/
theorem filter_file (h : ByFile found) {entry : Text × List Issue} (hentry : entry ∈ found) :
    (found.flatMap Prod.snd).filter (fun issue => issue.file = entry.1) = entry.2 := by
  obtain ⟨before, after, rfl⟩ := List.append_of_mem hentry
  have hnot : ∀ other ∈ before ++ after, other.1 ≠ entry.1 := by
    intro other hother heq
    have hnodup : ((entry :: (before ++ after)).map Prod.fst).Nodup :=
      (List.perm_middle.map Prod.fst).nodup_iff.mp h.nodup
    exact (List.nodup_cons.mp hnodup).1 (heq ▸ List.mem_map_of_mem hother)
  have hothers : ∀ other ∈ before ++ after,
      other.2.filter (fun issue => issue.file = entry.1) = [] := by
    intro other hother
    refine List.filter_eq_nil_iff.mpr fun issue hissue => ?_
    have hmem : other ∈ before ++ entry :: after :=
      List.perm_middle.mem_iff.mpr (List.mem_cons_of_mem entry hother)
    simpa [h.file_eq other hmem issue hissue] using hnot other hother
  have hnil : ∀ l : List (Text × List Issue), l ⊆ before ++ after →
      (l.flatMap fun other => other.2.filter fun issue => issue.file = entry.1) = [] :=
    fun l hl => List.flatMap_eq_nil_iff.mpr fun other hother => hothers other (hl hother)
  have hself : entry.2.filter (fun issue => issue.file = entry.1) = entry.2 :=
    List.filter_eq_self.mpr fun issue hissue => decide_eq_true (h.file_eq entry hentry issue hissue)
  rw [List.filter_flatMap, List.flatMap_append, List.flatMap_cons, hself,
    hnil before (List.subset_append_left _ _), hnil after (List.subset_append_right _ _),
    List.nil_append, List.append_nil]

theorem filter_file_perm (h : ByFile found) (hperm : found'.Perm found) (file : Text) :
    (found'.flatMap Prod.snd).filter (fun issue => issue.file = file)
      = (found.flatMap Prod.snd).filter fun issue => issue.file = file := by
  by_cases hfile : ∃ entry ∈ found, entry.1 = file
  · obtain ⟨entry, hentry, rfl⟩ := hfile
    rw [h.filter_file hentry, (h.perm hperm).filter_file (hperm.mem_iff.mpr hentry)]
  · have hnil : ∀ l : List (Text × List Issue), l.Perm found →
        (l.flatMap Prod.snd).filter (fun issue => issue.file = file) = [] := by
      intro l hl
      refine List.filter_eq_nil_iff.mpr fun issue hissue heq => hfile ?_
      obtain ⟨entry, hentry, hmem⟩ := List.mem_flatMap.mp hissue
      have hfound : entry ∈ found := hl.mem_iff.mp hentry
      have hentry_file : issue.file = entry.1 := h.file_eq entry hfound issue hmem
      exact ⟨entry, hfound, hentry_file.symm.trans (of_decide_eq_true heq)⟩
    rw [hnil found' hperm, hnil found (.refl found)]

theorem alike_flatMap_perm (h : ByFile found) (hperm : found'.Perm found) (a : Issue) :
    Issue.alike a (found'.flatMap Prod.snd) = Issue.alike a (found.flatMap Prod.snd) := by
  rw [← Issue.alike_filter_file, h.filter_file_perm hperm, Issue.alike_filter_file]

/-- The order of the files does not matter for the sorted issues. -/
theorem sort_perm (h : ByFile found) (hperm : found'.Perm found) :
    Issue.sort (found'.flatMap Prod.snd) = Issue.sort (found.flatMap Prod.snd) := by
  apply Issue.eq_of_alike_eq (Issue.pairwise_sort _) (Issue.pairwise_sort _)
  intro a
  rw [Issue.alike_sort, Issue.alike_sort, h.alike_flatMap_perm hperm]

end ByFile

/-! ## Outcomes -/

theorem Issue.severity_eq_error_iff {issue : Issue} :
    issue.severity = .error ↔
      issue.isParseError = true ∨ ∃ violation, issue.violation? = some violation ∧
        ∀ option pattern reason, violation ≠ .invalidPattern option pattern reason := by
  cases issue with
  | parseError file error => simp [severity, isParseError]
  | violation file position sourceLine violation =>
      cases violation <;> simp [severity, Violation.severity, isParseError, violation?]

namespace Outcome

theorem errors_add_warnings (o : Outcome) : o.errors + o.warnings = o.issues.length := by
  have hwarning : ∀ issue ∈ o.issues,
      decide (issue.severity = .warning) = true ↔
        (decide ¬(decide (issue.severity = .error) = true)) = true := by
    intro issue _
    cases issue.severity <;> simp
  rw [errors, warnings, List.countP_congr hwarning]
  exact (List.length_eq_countP_add_countP fun issue : Issue => issue.severity = .error).symm

theorem errors_pos_iff (o : Outcome) :
    0 < o.errors ↔ ∃ issue ∈ o.issues, issue.severity = .error := by
  simp [errors, List.countP_pos_iff]

end Outcome

theorem Result.code_status_ofChecked (format : OutputFormat) (verbose : Bool) (c : Checked) :
    (Result.ofChecked format verbose c).status.code = if 0 < c.outcome.errors then 1 else 0 := by
  cases format with
  | json =>
      simp only [Result.ofChecked]
      split <;> rfl
  | text =>
      simp only [Result.ofChecked]
      split <;> rfl

/-- Files may be analysed in any order: the outcome is the same, and with it all that is written and
the exit status. The issues of the outcome are those that were found, sorted by file, place, rule
and message, where issues of one file that compare equal stay in the order in which they were found
in it. Each of them is an error or a warning, and the exit status tells whether one is an error. -/
theorem outcome_of_reordered_files {found found' : List (Text × List Issue)} (h : ByFile found)
    (hperm : found'.Perm found) (filesChecked : Nat) :
    let issues := found.flatMap Prod.snd
    let outcome := Outcome.ofIssues issues filesChecked
    let outcome' := Outcome.ofIssues (found'.flatMap Prod.snd) filesChecked
    outcome' = outcome ∧
    (∀ (format : OutputFormat) (verbose : Bool) (notes : List Styled),
      Result.ofChecked format verbose ⟨outcome', notes⟩
        = Result.ofChecked format verbose ⟨outcome, notes⟩) ∧
    outcome.issues.Perm issues ∧
    outcome.issues.Pairwise (fun a b => a.sortKey ≤ b.sortKey) ∧
    (∀ entry ∈ found, ∀ a : Issue, a.file = entry.1 →
      Issue.alike a outcome.issues = Issue.alike a entry.2) ∧
    outcome.errors + outcome.warnings = issues.length ∧
    ∀ (format : OutputFormat) (verbose : Bool) (notes : List Styled),
      (Result.ofChecked format verbose ⟨outcome, notes⟩).status.code = 1 ↔
        ∃ issue ∈ issues, issue.isParseError = true ∨
          ∃ violation, issue.violation? = some violation ∧
            ∀ option pattern reason, violation ≠ .invalidPattern option pattern reason := by
  intro issues outcome outcome'
  have hsame : outcome' = outcome := by
    simp only [outcome', outcome, issues, Outcome.ofIssues, h.sort_perm hperm]
  have hissues : outcome.issues.Perm issues := Issue.sort_perm issues
  refine ⟨hsame, ?_, hissues, Issue.pairwise_sort issues, ?_, ?_, ?_⟩
  · intro format verbose notes
    rw [hsame]
  · intro entry hentry a ha
    have hsort : Issue.alike a outcome.issues = Issue.alike a issues := Issue.alike_sort a issues
    rw [hsort, ← Issue.alike_filter_file, ha, h.filter_file hentry]
  · rw [Outcome.errors_add_warnings, hissues.length_eq]
  · intro format verbose notes
    have hpos : 0 < outcome.errors ↔ ∃ issue ∈ issues, issue.severity = .error := by
      simp only [Outcome.errors_pos_iff, hissues.mem_iff]
    simp only [Result.code_status_ofChecked, ← Issue.severity_eq_error_iff, ← hpos]
    simp

/-- Two findings at one place compare equal and stay in their order, behind a file that could not be
read and was analysed later. -/
theorem outcome_of_two_files :
    let violation := Violation.noHardString "Hi".toList
    let first := Issue.violation "b.html".toList ⟨1, 4⟩ "<p>Hi".toList violation
    let second := Issue.violation "b.html".toList ⟨1, 4⟩ "Hi</p>".toList violation
    let broken := Issue.parseError "a.html".toList "oops".toList
    ByFile [("a.html".toList, [broken]), ("b.html".toList, [first, second])] ∧
      Outcome.ofIssues [first, second, broken] 2 = ⟨[broken, first, second], 2⟩ := by
  intro violation first second broken
  have hfound : ByFile [("a.html".toList, [broken]), ("b.html".toList, [first, second])] := by
    refine ⟨by decide, ?_⟩
    simp [first, second, broken, Issue.file]
  have hsorted : Issue.sort [broken, first, second] = [broken, first, second] :=
    List.mergeSort_of_pairwise (by decide)
  refine ⟨hfound, ?_⟩
  have hsame := (outcome_of_reordered_files hfound (.swap _ _ []) 2).1
  simpa [Outcome.ofIssues, hsorted] using hsame

/-! ## Checked sources -/

/-- The issues of a file; that it cannot be read is one of its own. -/
def issuesOf (fs : FileSystem) (settings : Settings) (rules : RuleSet) (file : Text) : List Issue :=
  match fileIssues fs settings rules file with
  | .ok issues => issues
  | .error error => [.parseError file error]

section

variable {fs : FileSystem} {settings : Settings} {rules : RuleSet} {file : Text}

theorem file_of_mem_fileIssues {issues : List Issue}
    (h : fileIssues fs settings rules file = .ok issues) :
    ∀ issue ∈ issues, issue.file = file := by
  unfold fileIssues at h
  split at h
  · cases h
  · unfold sourceIssues at h
    split at h
    · cases h
    · cases h
      intro issue hissue
      obtain ⟨d, _, rfl⟩ := List.mem_map.mp hissue
      rfl

theorem file_of_mem_issuesOf {issue : Issue} (h : issue ∈ issuesOf fs settings rules file) :
    issue.file = file := by
  unfold issuesOf at h
  split at h
  · next hissues => exact file_of_mem_fileIssues hissues issue h
  · cases List.mem_singleton.mp h
    rfl

theorem byFile_issuesOf (fs : FileSystem) (settings : Settings) (rules : RuleSet)
    {files : List Text} (h : files.Nodup) :
    ByFile (files.map fun file => (file, issuesOf fs settings rules file)) where
  nodup := by
    have hfiles : (files.map fun file => (file, issuesOf fs settings rules file)).map Prod.fst
        = files := by
      rw [List.map_map]
      exact List.map_id files
    rwa [hfiles]
  file_eq := by
    intro entry hentry issue hissue
    obtain ⟨file, _, rfl⟩ := List.mem_map.mp hentry
    exact file_of_mem_issuesOf hissue

end

theorem fst_checkFiles (fs : FileSystem) (settings : Settings) (rules : RuleSet) (verbose : Bool)
    (files : List Text) :
    (checkFiles fs settings rules verbose files).1
      = (files.map fun file => (file, issuesOf fs settings rules file)).flatMap Prod.snd := by
  induction files with
  | nil => rfl
  | cons file files ih =>
      rw [checkFiles, List.map_cons, List.flatMap_cons, ← ih]
      cases hissues : fileIssues fs settings rules file with
      | ok issues => simp [issuesOf, hissues]
      | error error => simp [issuesOf, hissues]

/-- Sources may be checked in any order, each of them once. -/
theorem outcome_checkFiles_perm {files files' : List Text} (hnodup : files.Nodup)
    (hperm : files'.Perm files) (fs : FileSystem) (settings : Settings) (rules : RuleSet)
    (verbose : Bool) :
    Outcome.ofIssues (checkFiles fs settings rules verbose files').1 files'.length
      = Outcome.ofIssues (checkFiles fs settings rules verbose files).1 files.length := by
  have hsort := (byFile_issuesOf fs settings rules hnodup).sort_perm
    (hperm.map fun file => (file, issuesOf fs settings rules file))
  rw [fst_checkFiles, fst_checkFiles, Outcome.ofIssues, Outcome.ofIssues, hsort, hperm.length_eq]

end KeyLint
