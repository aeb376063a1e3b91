import KeyLint.Proofs.Checker.Rules
import KeyLint.Proofs.Checker.Runs

/-!
# Ignored prefixes only take findings away

One more ignored prefix takes away the findings about keys that begin with it, and nothing else: the
other findings stay in their order, and whether a source can be read does not depend on it. It does
not matter where in the list the prefix stands.
-/

namespace KeyLint

/-- A finding about a key that begins with `start`. -/
def Diagnostic.isAboutKeyFrom (start : Text) (d : Diagnostic) : Bool :=
  d.violation.key?.any fun key => start.isPrefixOf key

theorem Violation.key?_of_rule {v : Violation} (h : v.rule = .noHardcodedStrings) :
    v.key? = none := by
  cases v with
  | noHardString text => rfl
  | invalidPattern option pattern reason => rfl
  | mismatchedKey | tooManyParts | notEnoughParts => cases h

/-- The naming options with other ignored prefixes. -/
def NamingOptions.ignoring (options : NamingOptions) (prefixes : List Text) : NamingOptions :=
  { options with ignoredPrefixes := prefixes }

/-! ## Keys -/

namespace Key

theorem key?_of_fault? {context : FileContext} {ignored : List Text} {key : Text} {v : Violation}
    (h : fault? context ignored key = some v) : v.key? = some key := by
  rcases of_fault?_eq_some h with rfl | rfl | rfl
  · rfl
  · rfl
  · rfl

theorem fault?_insert (context : FileContext) (before after : List Text) (start key : Text) :
    fault? context (before ++ start :: after) key
      = if start.isPrefixOf key then none else fault? context (before ++ after) key := by
  by_cases hstart : start.isPrefixOf key = true
  · simp [fault?, hstart]
  · simp [fault?, hstart]

end Key

/-! ## Runs -/

/-- The findings `es` are `ds` without those about keys that begin with `start`. -/
def Diagnostic.Dropped (start : Text) (ds es : List Diagnostic) : Prop :=
  es = ds.filter fun d => !d.isAboutKeyFrom start

namespace Diagnostic.Dropped

variable {start : Text} {ds : List Diagnostic}

theorem piecewise (start : Text) : Piecewise (Dropped start) where
  nil := rfl
  append h h' := by rw [Dropped, h, h', List.filter_append]

theorem refl_of_rule (h : ∀ d ∈ ds, d.violation.rule = .noHardcodedStrings) :
    Dropped start ds ds := by
  refine (List.filter_eq_self.mpr fun d hd => ?_).symm
  simp [isAboutKeyFrom, Violation.key?_of_rule (h d hd)]

end Diagnostic.Dropped

namespace Checker

/-- The same checker with other ignored prefixes. -/
def ignoring (c : Checker) (prefixes : List Text) : Checker :=
  { c with settings := { c.settings with naming := c.settings.naming.ignoring prefixes } }

theorem keyFindings_ignoring (c : Checker) (prefixes : List Text) (key : Text) (span : Span) :
    (c.ignoring prefixes).keyFindings key span
      = c.context.toList.flatMap fun context =>
          ((Key.fault? context prefixes key).map (Diagnostic.mk span)).toList := by
  cases hcontext : c.context with
  | none => simp [keyFindings, ignoring, hcontext]
  | some context => simp [keyFindings, ignoring, NamingOptions.ignoring, hcontext]

theorem isAboutKeyFrom_of_mem_keyFindings {c : Checker} {key : Text} {span : Span} {d : Diagnostic}
    (h : d ∈ c.keyFindings key span) (start : Text) :
    d.isAboutKeyFrom start = start.isPrefixOf key := by
  unfold keyFindings at h
  split at h
  · cases h
  · obtain ⟨fault, hfault, rfl⟩ := Option.map_eq_some_iff.mp (Option.mem_toList.mp h)
    rw [Diagnostic.isAboutKeyFrom, Key.key?_of_fault? hfault, Option.any_some]

theorem dropped_keyFindings (c : Checker) (before after : List Text) (start key : Text)
    (span : Span) :
    Diagnostic.Dropped start ((c.ignoring (before ++ after)).keyFindings key span)
      ((c.ignoring (before ++ start :: after)).keyFindings key span) := by
  by_cases hstart : start.isPrefixOf key = true
  · have hall : ((c.ignoring (before ++ after)).keyFindings key span).filter
        (fun d => !d.isAboutKeyFrom start) = [] := by
      refine List.filter_eq_nil_iff.mpr fun d hd => ?_
      simp [isAboutKeyFrom_of_mem_keyFindings hd, hstart]
    rw [Diagnostic.Dropped, hall, keyFindings_ignoring]
    simp [Key.fault?_insert, hstart]
  · have hnone : ((c.ignoring (before ++ after)).keyFindings key span).filter
        (fun d => !d.isAboutKeyFrom start)
          = (c.ignoring (before ++ after)).keyFindings key span := by
      refine List.filter_eq_self.mpr fun d hd => ?_
      simp [isAboutKeyFrom_of_mem_keyFindings hd, hstart]
    rw [Diagnostic.Dropped, hnone, keyFindings_ignoring, keyFindings_ignoring]
    simp [Key.fault?_insert, hstart]

theorem rule_of_mem_initial {c : Checker}
    (h : ∀ v ∈ c.settings.problems, v.rule = .noHardcodedStrings) :
    ∀ d ∈ c.initial, d.violation.rule = .noHardcodedStrings := by
  intro d hd
  unfold initial at hd
  split at hd
  · obtain ⟨v, hv, rfl⟩ := List.mem_map.mp hd
    exact h v hv
  · cases hd

theorem run_ignoring (c : Checker) (before after : List Text) (start : Text)
    (h : ∀ v ∈ c.settings.problems, v.rule = .noHardcodedStrings) (events : List Event) :
    (c.ignoring (before ++ start :: after)).run events
      = ((c.ignoring (before ++ after)).run events).filter fun d => !d.isAboutKeyFrom start := by
  have hsame : SameFile (c.ignoring (before ++ after)) (c.ignoring (before ++ start :: after)) :=
    ⟨rfl, rfl, rfl, rfl⟩
  refine hsame.run (Diagnostic.Dropped.piecewise start) ?_ ?_ ?_ events
  · exact Diagnostic.Dropped.refl_of_rule (rule_of_mem_initial h)
  · exact dropped_keyFindings c before after start
  · intro event
    exact Diagnostic.Dropped.refl_of_rule fun d hd => rule_of_mem_wordingFindings hd

end Checker

/-! ## Sources -/

/-- Settings that change only what is found in events change the findings of a source alike. -/
theorem analyze_map {settings settings' : Settings} {rules : RuleSet} {file : Text}
    {f : List Diagnostic → List Diagnostic}
    (hcontext : FileContext.ofFile? settings'.naming file
      = FileContext.ofFile? settings.naming file)
    (hrun : ∀ events, (Checker.ofFile settings' rules file).run events
      = f ((Checker.ofFile settings rules file).run events)) (source : Text) :
    analyze settings' rules file source = (analyze settings rules file source).map f := by
  by_cases h : FileContext.ofFile? settings.naming file = none
  · rw [analyze_of_no_context h, analyze_of_no_context (hcontext.trans h), hrun]
    rfl
  · rw [analyze_of_context h, analyze_of_context (hcontext ▸ h)]
    cases sourceEvents file source with
    | error e => rfl
    | ok events => exact congrArg Except.ok (hrun events)

/-- One more ignored prefix, wherever it stands in the list, takes the findings about keys that
begin with it out of the findings of a file and leaves all others as they are. It changes neither
the context of the file nor whether its source can be read. -/
theorem ignored_prefix_only_filters (naming : NamingOptions) (wording : WordingOptions)
    (rules : RuleSet) (file : Text) (before after : List Text) (start : Text) :
    FileContext.ofFile? (naming.ignoring (before ++ start :: after)) file
      = FileContext.ofFile? (naming.ignoring (before ++ after)) file ∧
    (∀ (base : Nat) (events : List Event),
      Checker.run { Checker.ofFile (.ofOptions (naming.ignoring (before ++ start :: after)) wording)
          rules file with scriptBase := base } events
        = (Checker.run { Checker.ofFile (.ofOptions (naming.ignoring (before ++ after)) wording)
            rules file with scriptBase := base } events).filter
          fun d => !d.isAboutKeyFrom start) ∧
    ∀ source : Text,
      analyze (.ofOptions (naming.ignoring (before ++ start :: after)) wording) rules file source
        = (analyze (.ofOptions (naming.ignoring (before ++ after)) wording) rules file source).map
            (List.filter fun d => !d.isAboutKeyFrom start) := by
  have hcontext : FileContext.ofFile? (naming.ignoring (before ++ start :: after)) file
      = FileContext.ofFile? (naming.ignoring (before ++ after)) file := rfl
  have hrun : ∀ (base : Nat) (events : List Event),
      Checker.run { Checker.ofFile (.ofOptions (naming.ignoring (before ++ start :: after)) wording)
          rules file with scriptBase := base } events
        = (Checker.run { Checker.ofFile (.ofOptions (naming.ignoring (before ++ after)) wording)
            rules file with scriptBase := base } events).filter
          fun d => !d.isAboutKeyFrom start := by
    intro base events
    exact Checker.run_ignoring { Checker.ofFile (.ofOptions naming wording) rules file with
      scriptBase := base } before after start (fun _ => Settings.rule_of_mem_problems) events
  exact ⟨hcontext, hrun, analyze_map hcontext (hrun 0)⟩

end KeyLint
