import Mathlib.Data.List.Basic
import KeyLint.Analysis
import KeyLint.Proofs.Checker.Handlers

/-!
# The two rules do not see each other

A check with both rules finds what each rule finds alone. Every finding tells which rule it breaks,
so that what one rule found can be taken out of the findings of both; what is left is, in the same
order, what a check with that rule alone finds. Whether a source can be read does not depend on the
rules at all.
-/

namespace KeyLint

/-- The rule that is asked for by a name. -/
def RuleName.rule : RuleName → Rule
  | .naming => .keyNamingConvention
  | .wording => .noHardcodedStrings

@[simp] theorem RuleSet.ofNames_naming : RuleSet.ofNames [.naming] = ⟨true, false⟩ := rfl

@[simp] theorem RuleSet.ofNames_wording : RuleSet.ofNames [.wording] = ⟨false, true⟩ := rfl

/-- The findings that break a rule. -/
def Diagnostic.about (rule : Rule) (ds : List Diagnostic) : List Diagnostic :=
  ds.filter fun d => d.violation.rule = rule

namespace Diagnostic

variable {rule other : Rule} {ds : List Diagnostic}

theorem about_append (rule : Rule) (ds es : List Diagnostic) :
    about rule (ds ++ es) = about rule ds ++ about rule es :=
  List.filter_append _ _

theorem about_eq_self (h : ∀ d ∈ ds, d.violation.rule = rule) : about rule ds = ds :=
  List.filter_eq_self.mpr fun d hd => decide_eq_true (h d hd)

theorem about_eq_nil (h : ∀ d ∈ ds, d.violation.rule = other) (hne : other ≠ rule) :
    about rule ds = [] := by
  refine List.filter_eq_nil_iff.mpr fun d hd => ?_
  rw [h d hd]
  simpa using hne

end Diagnostic

/-! ## Which rule a finding breaks -/

/-- The faults of a key are about the key itself. -/
theorem Key.of_fault?_eq_some {context : FileContext} {ignored : List Text} {key : Text}
    {violation : Violation} (h : Key.fault? context ignored key = some violation) :
    violation = .notEnoughParts key context.kind ∨
      violation = .mismatchedKey key context.keyPrefix ∨
      violation = .tooManyParts key context.kind := by
  unfold Key.fault? at h
  split at h
  · cases h
  split at h
  · cases h
    exact .inl rfl
  split at h
  · cases h
    exact .inr (.inl rfl)
  split at h
  · cases h
    exact .inl rfl
  split at h
  · cases h
    exact .inr (.inr rfl)
  · cases h

theorem Key.rule_of_fault? {context : FileContext} {ignored : List Text} {key : Text}
    {violation : Violation} (h : Key.fault? context ignored key = some violation) :
    violation.rule = .keyNamingConvention := by
  rcases Key.of_fault?_eq_some h with rfl | rfl | rfl
  · rfl
  · rfl
  · rfl

theorem optionProblem?_eq_some {option : PatternOption} {source : Option Text}
    {violation : Violation} (h : optionProblem? option source = some violation) :
    ∃ pattern reason, violation = .invalidPattern option pattern reason := by
  unfold optionProblem? at h
  split at h
  · cases h
    exact ⟨_, _, rfl⟩
  · cases h

/-- All findings about settings are refused patterns. -/
theorem Settings.of_mem_problems {naming : NamingOptions} {wording : WordingOptions}
    {violation : Violation} (h : violation ∈ (Settings.ofOptions naming wording).problems) :
    ∃ option pattern reason, violation = .invalidPattern option pattern reason := by
  simp only [Settings.ofOptions, List.mem_append, Option.mem_toList] at h
  rcases h with h | h
  · exact ⟨_, optionProblem?_eq_some h⟩
  · exact ⟨_, optionProblem?_eq_some h⟩

theorem Settings.rule_of_mem_problems {naming : NamingOptions} {wording : WordingOptions}
    {violation : Violation} (h : violation ∈ (Settings.ofOptions naming wording).problems) :
    violation.rule = .noHardcodedStrings := by
  obtain ⟨_, _, _, rfl⟩ := Settings.of_mem_problems h
  rfl

namespace Checker

variable {c : Checker} {tracker : Tracker} {event : Event} {d : Diagnostic}

theorem rule_of_mem_keyFindings {key : Text} {span : Span} (h : d ∈ c.keyFindings key span) :
    d.violation.rule = .keyNamingConvention := by
  unfold keyFindings at h
  split at h
  · cases h
  · obtain ⟨fault, hfault, rfl⟩ := Option.map_eq_some_iff.mp (Option.mem_toList.mp h)
    exact Key.rule_of_fault? hfault

theorem rule_of_mem_expressionFindings {source : Text} {span : Span}
    (h : d ∈ c.expressionFindings source span) : d.violation.rule = .keyNamingConvention := by
  obtain ⟨key, _, hkey⟩ := List.mem_flatMap.mp h
  exact rule_of_mem_keyFindings hkey

theorem rule_of_mem_namingFindings (h : d ∈ c.namingFindings tracker event) :
    d.violation.rule = .keyNamingConvention := by
  unfold namingFindings at h
  split at h
  · obtain ⟨literal, _, hliteral⟩ := List.mem_flatMap.mp h
    exact rule_of_mem_keyFindings hliteral
  · split at h
    · split at h
      · exact rule_of_mem_expressionFindings h
      · cases h
    · cases h
  · cases h
  all_goals
    split at h
    · exact rule_of_mem_expressionFindings h
    · cases h

theorem rule_of_mem_textFindings {text : Text} {span : Span} (h : d ∈ c.textFindings text span) :
    d.violation.rule = .noHardcodedStrings := by
  unfold textFindings at h
  split at h
  · cases h
  · cases List.mem_singleton.mp h
    rfl

theorem rule_of_mem_wordingFindings (h : d ∈ c.wordingFindings event) :
    d.violation.rule = .noHardcodedStrings := by
  have hnil : d ∉ ([] : List Diagnostic) := List.not_mem_nil
  unfold wordingFindings at h
  split at h
  · split at h
    · split at h
      · exact absurd h hnil
      · split at h
        · exact absurd h hnil
        · exact rule_of_mem_textFindings h
    · exact absurd h hnil
  · exact absurd h hnil
  · split at h
    · split at h
      · exact rule_of_mem_textFindings h
      · split at h
        · exact rule_of_mem_textFindings h
        · exact absurd h hnil
      · split at h
        · exact absurd h hnil
        · split at h
          · exact rule_of_mem_textFindings h
          · exact absurd h hnil
      · exact absurd h hnil
    · exact absurd h hnil

/-! ## Runs with one rule and with both -/

/-- The same checker with other rules. -/
def withRules (c : Checker) (rules : RuleSet) : Checker :=
  { c with rules }

/-- What both rules find at an event falls into what each of them finds alone. -/
theorem about_findings (c : Checker) (name : RuleName) (tracker : Tracker) (event : Event) :
    Diagnostic.about name.rule ((c.withRules {}).findings tracker event)
      = (c.withRules (.ofNames [name])).findings tracker event := by
  have hfindings : ∀ rules, (c.withRules rules).findings tracker event
      = if c.context.isSome then
          (if rules.naming then c.namingFindings tracker event else [])
            ++ (if rules.wording then c.wordingFindings event else [])
        else [] := fun rules => findings_eq (c.withRules rules) tracker event
  have hname : ∀ d ∈ c.namingFindings tracker event, d.violation.rule = .keyNamingConvention :=
    fun _ => rule_of_mem_namingFindings
  have hword : ∀ d ∈ c.wordingFindings event, d.violation.rule = .noHardcodedStrings :=
    fun _ => rule_of_mem_wordingFindings
  rw [hfindings, hfindings]
  by_cases hcontext : c.context.isSome
  · rw [if_pos hcontext, if_pos hcontext, Diagnostic.about_append]
    cases name with
    | naming =>
        simp [RuleName.rule, Diagnostic.about_eq_self hname, Diagnostic.about_eq_nil hword]
    | wording =>
        simp [RuleName.rule, Diagnostic.about_eq_self hword, Diagnostic.about_eq_nil hname]
  · rw [if_neg hcontext, if_neg hcontext]
    rfl

theorem about_flatten_stepsFrom (c : Checker) (name : RuleName) (tracker : Tracker)
    (events : List Event) :
    Diagnostic.about name.rule ((c.withRules {}).stepsFrom tracker events).flatten
      = ((c.withRules (.ofNames [name])).stepsFrom tracker events).flatten := by
  induction events generalizing tracker with
  | nil => rfl
  | cons event events ih =>
      -- What is tracked does not depend on the rules, so that both runs go on alike.
      have htrack : ∀ rules, (c.withRules rules).track tracker event = c.track tracker event :=
        fun _ => rfl
      simp only [stepsFrom, List.flatten_cons, Diagnostic.about_append, about_findings, htrack, ih]

theorem about_initial (c : Checker) (name : RuleName)
    (h : ∀ v ∈ c.settings.problems, v.rule = .noHardcodedStrings) :
    Diagnostic.about name.rule (c.withRules {}).initial
      = (c.withRules (.ofNames [name])).initial := by
  have hinitial : ∀ rules, (c.withRules rules).initial
      = if c.context.isSome && rules.wording then
          c.settings.problems.map (Diagnostic.mk Span.fileStart)
        else [] := fun _ => rfl
  have hproblem : ∀ d ∈ c.settings.problems.map (Diagnostic.mk Span.fileStart),
      d.violation.rule = .noHardcodedStrings := by
    intro d hd
    obtain ⟨v, hv, rfl⟩ := List.mem_map.mp hd
    exact h v hv
  rw [hinitial, hinitial]
  by_cases hcontext : c.context.isSome
  · cases name with
    | naming => simp [hcontext, RuleName.rule, Diagnostic.about_eq_nil hproblem]
    | wording => simp [hcontext, RuleName.rule, Diagnostic.about_eq_self hproblem]
  · simp [hcontext, Diagnostic.about]

theorem about_run (c : Checker) (name : RuleName)
    (h : ∀ v ∈ c.settings.problems, v.rule = .noHardcodedStrings) (events : List Event) :
    Diagnostic.about name.rule ((c.withRules {}).run events)
      = (c.withRules (.ofNames [name])).run events := by
  simp only [run, steps, Diagnostic.about_append, about_initial c name h, about_flatten_stepsFrom]

end Checker

/-! ## Sources -/

theorem analyze_of_no_context {settings : Settings} {file : Text}
    (h : FileContext.ofFile? settings.naming file = none) (rules : RuleSet) (source : Text) :
    analyze settings rules file source = .ok ((Checker.ofFile settings rules file).run []) := by
  simp [analyze, Checker.ofFile, h]

theorem analyze_of_context {settings : Settings} {file : Text}
    (h : FileContext.ofFile? settings.naming file ≠ none) (rules : RuleSet) (source : Text) :
    analyze settings rules file source
      = (sourceEvents file source).map (Checker.ofFile settings rules file).run := by
  obtain ⟨context, hcontext⟩ := Option.ne_none_iff_exists'.mp h
  simp [analyze, Checker.ofFile, hcontext]

theorem analyze_eq_error_iff {settings : Settings} {rules : RuleSet} {file source : Text}
    {e : SourceError} : analyze settings rules file source = .error e ↔
      FileContext.ofFile? settings.naming file ≠ none ∧ sourceEvents file source = .error e := by
  by_cases h : FileContext.ofFile? settings.naming file = none
  · simp [analyze_of_no_context h, h]
  · rw [analyze_of_context h]
    cases sourceEvents file source <;> simp [Except.map, h]

/-- The rules are independent of each other: whether and why a source cannot be read is the same for
all selections of rules, and what both rules find in a source, or in any sequence of events, falls
into what each of them finds alone. -/
theorem rules_independent (naming : NamingOptions) (wording : WordingOptions) (file : Text) :
    (∀ (source : Text) (rules rules' : RuleSet) (e : SourceError),
      analyze (.ofOptions naming wording) rules file source = .error e ↔
        analyze (.ofOptions naming wording) rules' file source = .error e) ∧
    (∀ (source : Text) (name : RuleName),
      (analyze (.ofOptions naming wording) ⟨true, true⟩ file source).map (Diagnostic.about name.rule)
        = analyze (.ofOptions naming wording) (.ofNames [name]) file source) ∧
    ∀ (base : Nat) (events : List Event) (name : RuleName),
      Diagnostic.about name.rule
        (Checker.run { Checker.ofFile (.ofOptions naming wording) ⟨true, true⟩ file with
          scriptBase := base } events)
        = Checker.run { Checker.ofFile (.ofOptions naming wording) (.ofNames [name]) file with
          scriptBase := base } events := by
  have hrun : ∀ (base : Nat) (events : List Event) (name : RuleName),
      Diagnostic.about name.rule
        (Checker.run { Checker.ofFile (.ofOptions naming wording) ⟨true, true⟩ file with
          scriptBase := base } events)
        = Checker.run { Checker.ofFile (.ofOptions naming wording) (.ofNames [name]) file with
          scriptBase := base } events := by
    intro base events name
    exact Checker.about_run { Checker.ofFile (.ofOptions naming wording) ⟨true, true⟩ file with
      scriptBase := base } name (fun _ => Settings.rule_of_mem_problems) events
  refine ⟨?_, ?_, hrun⟩
  · intro source rules rules' e
    rw [analyze_eq_error_iff, analyze_eq_error_iff]
  · intro source name
    by_cases h : FileContext.ofFile? (Settings.ofOptions naming wording).naming file = none
    · rw [analyze_of_no_context h, analyze_of_no_context h]
      exact congrArg Except.ok (hrun 0 [] name)
    · rw [analyze_of_context h, analyze_of_context h]
      cases sourceEvents file source with
      | error e => rfl
      | ok events => exact congrArg Except.ok (hrun 0 events name)

end KeyLint
