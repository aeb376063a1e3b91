import KeyLint.Issue
import KeyLint.Proofs.Checker.Rules
import KeyLint.Proofs.Lines
import KeyLint.Proofs.Template.Spans

/-!
# Where the issues of a template point

Whatever the rules find in a template, they find at an item of it, and report it at the item's
span. An item never begins with a blank, so that the character at the beginning of its span is
always in a line, and the issue about it shows this line and the column of the character.
-/

namespace KeyLint

namespace Template

/-! ## The first characters of items -/

theorem exists_segment_of_boundText {offset : Nat} {t : Text} {items : List Item}
    (h : itemsFrom offset t = .ok items) {source : Text} {span : Span}
    (hmem : .boundText source span ∈ items) :
    ∃ segment : Segment, segment.item? = some (.boundText source span) := by
  have hregion : ∀ {offset : Nat} {region : Text}, .boundText source span ∈ regionItems offset region →
      ∃ segment : Segment, segment.item? = some (.boundText source span) := by
    intro offset region hmem
    obtain ⟨segment, _, hsegment⟩ := List.mem_filterMap.mp hmem
    exact ⟨segment, hsegment⟩
  fun_induction itemsFrom offset t generalizing items with
  | case1 => cases h
  | case2 =>
      cases h
      exact hregion hmem
  | case3 => cases h
  | case4 => cases h
  | case5 offset t region opening markup _ markupOffset attributes rest _ restOffset more hmore =>
      rename_i ih
      cases h
      rcases List.mem_append.mp hmem with hmem | hmem
      · rcases List.mem_append.mp hmem with hmem | hmem
        · exact hregion hmem
        · obtain ⟨a, _, ha⟩ := List.mem_filterMap.mp hmem
          rcases classify?_eq_some ha with ⟨_, _, _, hitem⟩ | ⟨_, _, hitem⟩
          · cases hitem
          · cases hitem
      · exact ih hmore hmem

theorem not_isBlank_of_boundText {segment : Segment} {source : Text} {span : Span}
    (h : segment.item? = some (.boundText source span)) :
    ∀ c ∈ source.head?, Text.isBlank c = false := by
  unfold Segment.item? at h
  simp only at h
  split at h
  · cases h
  split at h
  · cases h
    exact fun c hc => Text.not_isBlank_of_head?_trim hc
  · cases h

theorem WrittenAttribute.isPrefix {name value written : Text}
    (h : WrittenAttribute name value written) : name <+: written := by
  cases h with
  | alone => exact List.prefix_refl _
  | quoted => exact List.prefix_append _ _
  | unquoted => exact List.prefix_append _ _

theorem IsAttributeName.head_of_isPrefix {name written : Text} (h : IsAttributeName name)
    (hpre : name <+: written) : ∀ c ∈ written.head?, Text.isAsciiBlank c = false := by
  obtain ⟨hne, hchars⟩ := h
  obtain ⟨d, name, rfl⟩ := List.exists_cons_of_ne_nil hne
  obtain ⟨rest, rfl⟩ := hpre
  rintro c ⟨⟩
  exact (hchars d List.mem_cons_self).2.2.2.2

/-- What is written at an item begins with a character that does not end a line. -/
theorem exists_first_char {source : Text} {items : List Item}
    (h : Template.items source = .ok items) {item : Item} (hitem : item ∈ items) :
    ∃ before c after, source = before ++ c :: after ∧ item.span.start = Text.bytes before ∧
      c ≠ '\n' ∧ c ≠ '\r' := by
  obtain ⟨before, written, after, rfl, hstart, hne, hwritten⟩ :=
    (located_itemsFrom h).exists_written item hitem
  obtain ⟨c, rest, rfl⟩ := List.exists_cons_of_ne_nil hne
  refine ⟨before, c, rest ++ after, by simp, by simpa using hstart, ?_⟩
  have hblank : Text.isBlank c = false ∨ Text.isAsciiBlank c = false := by
    cases item with
    | text value span => exact .inl (hwritten.2.1 c rfl)
    | boundText source span =>
        obtain ⟨segment, hsegment⟩ := exists_segment_of_boundText h hitem
        exact .inl (not_isBlank_of_boundText hsegment c (by rw [show source = _ from hwritten]; rfl))
    | textAttribute name value structural span =>
        obtain ⟨name, value, hname, hattribute, _⟩ := hwritten
        exact .inr (hname.head_of_isPrefix hattribute.isPrefix c rfl)
    | boundAttribute name source span =>
        obtain ⟨name, value, hname, hattribute, _⟩ := hwritten
        exact .inr (hname.head_of_isPrefix hattribute.isPrefix c rfl)
  constructor
  · rintro rfl
    rcases hblank with hblank | hblank <;> exact absurd hblank (by decide)
  · rintro rfl
    rcases hblank with hblank | hblank <;> exact absurd hblank (by decide)

end Template

namespace Checker

variable {c : Checker} {tracker : Tracker} {d : Diagnostic}

/-! ## The spans of findings -/

theorem span_of_mem_keyFindings {key : Text} {span : Span} (h : d ∈ c.keyFindings key span) :
    d.span = span := by
  unfold keyFindings at h
  split at h
  · cases h
  · obtain ⟨fault, _, rfl⟩ := Option.map_eq_some_iff.mp (Option.mem_toList.mp h)
    rfl

theorem span_of_mem_expressionFindings {source : Text} {span : Span}
    (h : d ∈ c.expressionFindings source span) : d.span = span := by
  obtain ⟨key, _, hkey⟩ := List.mem_flatMap.mp h
  exact span_of_mem_keyFindings hkey

theorem span_of_mem_textFindings {text : Text} {span : Span} (h : d ∈ c.textFindings text span) :
    d.span = span := by
  unfold textFindings at h
  split at h
  · cases h
  · cases List.mem_singleton.mp h
    rfl

theorem span_of_mem_namingFindings {item : Template.Item}
    (h : d ∈ c.namingFindings tracker (.template item)) : d.span = item.span := by
  cases item with
  | text value span =>
      simp only [namingFindings] at h
      split at h
      · exact span_of_mem_expressionFindings h
      · cases h
  | boundText source span =>
      simp only [namingFindings] at h
      split at h
      · exact span_of_mem_expressionFindings h
      · cases h
  | textAttribute name value structural span =>
      simp only [namingFindings] at h
      split at h
      · exact span_of_mem_expressionFindings h
      · cases h
  | boundAttribute name source span =>
      simp only [namingFindings] at h
      split at h
      · exact span_of_mem_expressionFindings h
      · cases h

theorem span_of_mem_wordingFindings {item : Template.Item}
    (h : d ∈ c.wordingFindings (.template item)) : d.span = item.span := by
  simp only [wordingFindings] at h
  split at h
  · cases item with
    | text value span => exact span_of_mem_textFindings h
    | boundText source span => cases h
    | textAttribute name value structural span =>
        simp only at h
        split at h
        · exact span_of_mem_textFindings h
        · cases h
    | boundAttribute name source span =>
        simp only at h
        split at h
        · cases h
        split at h
        · exact span_of_mem_textFindings h
        · cases h
  · cases h

/-- Whatever is found at an item is reported at the span of the item. -/
theorem span_of_mem_findings {item : Template.Item}
    (h : d ∈ c.findings tracker (.template item)) : d.span = item.span := by
  rw [findings_eq] at h
  split at h
  · rcases List.mem_append.mp h with h | h
    · split at h
      · exact span_of_mem_namingFindings h
      · cases h
    · split at h
      · exact span_of_mem_wordingFindings h
      · cases h
  · cases h

theorem span_of_mem_stepsFrom {items : List Template.Item}
    (h : d ∈ (c.stepsFrom tracker (items.map .template)).flatten) :
    ∃ item ∈ items, d.span = item.span := by
  induction items generalizing tracker with
  | nil => cases h
  | cons item items ih =>
      rw [List.map_cons, stepsFrom, List.flatten_cons, List.mem_append] at h
      rcases h with h | h
      · exact ⟨item, List.mem_cons_self, span_of_mem_findings h⟩
      · obtain ⟨later, hlater, hspan⟩ := ih h
        exact ⟨later, List.mem_cons_of_mem item hlater, hspan⟩

/-- Findings are in the order of the items that they are about. -/
theorem pairwise_stepsFrom {items : List Template.Item}
    (h : items.Pairwise fun a b => a.span.start ≤ b.span.start) (c : Checker) (tracker : Tracker) :
    (c.stepsFrom tracker (items.map .template)).flatten.Pairwise
      fun a b => a.span.start ≤ b.span.start := by
  induction items generalizing tracker with
  | nil => exact .nil
  | cons item items ih =>
      obtain ⟨hfirst, hrest⟩ := List.pairwise_cons.mp h
      rw [List.map_cons, stepsFrom, List.flatten_cons, List.pairwise_append]
      refine ⟨?_, ih hrest _, ?_⟩
      · refine List.pairwise_of_forall_mem_list fun a ha b hb => ?_
        rw [span_of_mem_findings ha, span_of_mem_findings hb]
      · intro a ha b hb
        obtain ⟨later, hlater, hspan⟩ := span_of_mem_stepsFrom hb
        rw [span_of_mem_findings ha, hspan]
        exact hfirst later hlater

theorem span_of_mem_initial (h : d ∈ c.initial) : d.span = Span.fileStart := by
  unfold initial at h
  split at h
  · obtain ⟨problem, _, rfl⟩ := List.mem_map.mp h
    rfl
  · cases h

theorem pairwise_run {items : List Template.Item}
    (h : items.Pairwise fun a b => a.span.start ≤ b.span.start) (c : Checker) :
    (c.run (items.map .template)).Pairwise fun a b => a.span.start ≤ b.span.start := by
  rw [run, steps, List.pairwise_append]
  refine ⟨?_, pairwise_stepsFrom h c {}, ?_⟩
  · refine List.pairwise_of_forall_mem_list fun a ha b hb => ?_
    rw [span_of_mem_initial ha, span_of_mem_initial hb]
  · intro a ha b _
    rw [span_of_mem_initial ha]
    exact Nat.zero_le _

end Checker

/-! ## Issues -/

theorem sourceEvents_of_template {file source : Text} {items : List Template.Item}
    (hfile : ".html".toList <:+ file) (hitems : Template.items source = .ok items) :
    sourceEvents file source = .ok (items.map .template) := by
  rw [sourceEvents, if_pos (Text.isSome_before?_iff.mpr hfile), hitems]

/-- The findings in a template are in the order of their places, and the issue about each of them,
refused patterns apart, shows the line and the column of the character at the beginning of its
span. -/
theorem template_issues_placed {naming : NamingOptions} {file source : Text}
    {items : List Template.Item} (hfile : ".html".toList <:+ file)
    (hcontext : FileContext.ofFile? naming file ≠ none)
    (hitems : Template.items source = .ok items) (wording : WordingOptions) (rules : RuleSet) :
    ∃ diagnostics, analyze (.ofOptions naming wording) rules file source = .ok diagnostics ∧
      diagnostics.Pairwise (fun a b => a.span.start ≤ b.span.start) ∧
      ∀ d ∈ diagnostics,
        (∀ option pattern reason, d.violation ≠ .invalidPattern option pattern reason) →
        ∃ position text rest c,
          Issue.ofDiagnostic file source d = .violation file position text d.violation ∧
          1 ≤ position.column ∧ position.column ≤ text.length ∧
          Text.dropBytes? source d.span.start = some rest ∧ rest.head? = some c ∧
          text[position.column - 1]? = some c ∧ '\n' ∉ text ∧
          text.drop (position.column - 1) <+: rest := by
  have hlocated : Template.Located 0 source items := Template.located_itemsFrom hitems
  have horder : items.Pairwise fun a b => a.span.start ≤ b.span.start := by
    refine hlocated.pairwise.imp_of_mem fun ha _ hstop => ?_
    have hbounds := hlocated.span_bounds _ ha
    omega
  refine ⟨_, ?_, Checker.pairwise_run horder (.ofFile (.ofOptions naming wording) rules file), ?_⟩
  · rw [analyze_of_context hcontext, sourceEvents_of_template hfile hitems]
    rfl
  · intro d hd hviolation
    rw [Checker.run, List.mem_append] at hd
    rcases hd with hd | hd
    -- What is found about the settings are refused patterns only.
    · unfold Checker.initial at hd
      split at hd
      · obtain ⟨problem, hproblem, rfl⟩ := List.mem_map.mp hd
        obtain ⟨option, pattern, reason, hinvalid⟩ := Settings.of_mem_problems hproblem
        exact absurd hinvalid (hviolation option pattern reason)
      · cases hd
    · obtain ⟨item, hitem, hspan⟩ := Checker.span_of_mem_stepsFrom hd
      obtain ⟨before, c, after, rfl, hstart, hfeed, hreturn⟩ :=
        Template.exists_first_char hitems hitem
      obtain ⟨start, rest, hcolumn, hline, hfree, hrest⟩ :=
        Text.exists_line hfeed hreturn before after
      rw [hspan, hstart]
      refine ⟨_, _, c :: after, c, by rw [Issue.ofDiagnostic, hspan, hstart], ?_, ?_,
        Text.dropBytes?_append before (c :: after), rfl, ?_, ?_, ?_⟩
      · rw [hcolumn]
        exact Nat.le_add_left 1 _
      · rw [hcolumn, hline]
        simp
      · rw [hcolumn, hline]
        simp
      · rwa [hline]
      · rw [hcolumn, hline]
        simpa using hrest

/-- A text in the second line of a template with carriage returns. -/
theorem template_issue_in_second_line :
    ∃ position text rest c,
      Issue.ofDiagnostic "sign-in.component.html".toList "<p>\r\n Ü here\r\n</p>".toList
          ⟨⟨6, 13⟩, .noHardString "Ü here".toList⟩
        = .violation "sign-in.component.html".toList position text (.noHardString "Ü here".toList) ∧
      1 ≤ position.column ∧ position.column ≤ text.length ∧
      Text.dropBytes? "<p>\r\n Ü here\r\n</p>".toList 6 = some rest ∧ rest.head? = some c ∧
      text[position.column - 1]? = some c ∧ '\n' ∉ text ∧
      text.drop (position.column - 1) <+: rest := by
  have hfile : ".html".toList <:+ "sign-in.component.html".toList := by decide
  have hcontext : FileContext.ofFile? {} "sign-in.component.html".toList ≠ none := by
    decide +kernel
  have hitems : Template.items "<p>\r\n Ü here\r\n</p>".toList
      = .ok [.text "Ü here".toList ⟨6, 13⟩] := by decide +kernel
  have hfound : analyze (.ofOptions {} {}) {} "sign-in.component.html".toList
      "<p>\r\n Ü here\r\n</p>".toList = .ok [⟨⟨6, 13⟩, .noHardString "Ü here".toList⟩] := by
    decide +kernel
  obtain ⟨diagnostics, hok, _, hplaced⟩ := template_issues_placed hfile hcontext hitems {} {}
  rw [hfound] at hok
  cases hok
  exact hplaced _ List.mem_cons_self (by simp)

end KeyLint
