import Mathlib.Data.List.Count
import KeyLint.Proofs.Checker.Runs
import KeyLint.Proofs.Text

/-!
# Patterns of the wording rule

The patterns that a project gives add to the built-in exemptions. A pattern that is refused leaves
nothing behind but a finding that it was refused; a pattern that is accepted only ever takes away
findings about wording.
-/

namespace KeyLint

/-! ## Findings without some about wording -/

/-- The findings `es` are `ds` without some about hard-coded texts. -/
inductive Thinned : (ds es : List Diagnostic) → Prop
  | nil : Thinned [] []
  | keep {ds es : List Diagnostic} (d : Diagnostic) (h : Thinned ds es) :
      Thinned (d :: ds) (d :: es)
  | drop {ds es : List Diagnostic} (span : Span) (text : Text) (h : Thinned ds es) :
      Thinned (⟨span, .noHardString text⟩ :: ds) es

namespace Thinned

variable {ds es : List Diagnostic}

theorem refl (ds : List Diagnostic) : Thinned ds ds := by
  induction ds with
  | nil => exact .nil
  | cons d ds ih => exact .keep d ih

theorem append {ds' es' : List Diagnostic} (h : Thinned ds es) (h' : Thinned ds' es') :
    Thinned (ds ++ ds') (es ++ es') := by
  induction h with
  | nil => exact h'
  | keep d _ ih => exact .keep d ih
  | drop span text _ ih => exact .drop span text ih

theorem piecewise : Piecewise Thinned where
  nil := .nil
  append := append

theorem sublist (h : Thinned ds es) : es.Sublist ds := by
  induction h with
  | nil => exact .slnil
  | keep d _ ih => exact ih.cons_cons d
  | drop span text _ ih => exact ih.cons _

theorem count_eq (h : Thinned ds es) {d : Diagnostic}
    (hd : ∀ text, d.violation ≠ .noHardString text) : es.count d = ds.count d := by
  induction h with
  | nil => rfl
  | keep e _ ih => rw [List.count_cons, List.count_cons, ih]
  | drop span text _ ih =>
      have hne : (⟨span, .noHardString text⟩ : Diagnostic) ≠ d := by
        rintro rfl
        exact hd text rfl
      rw [List.count_cons_of_ne hne, ih]

/-- Whatever is missing is about a hard-coded text. -/
theorem of_mem_diff (h : Thinned ds es) {d : Diagnostic} (hd : d ∈ ds.diff es) :
    ∃ text, d.violation = .noHardString text := by
  by_contra hnot
  have hcount : (ds.diff es).count d = 0 := by
    rw [List.count_diff, h.count_eq (not_exists.mp hnot), Nat.sub_self]
  exact List.count_eq_zero.mp hcount hd

/-- A guard that lets less through takes away only what may be taken away. -/
theorem guarded {p q : Bool} (hpq : p = true → q = true) (hnil : Thinned ds [])
    (h : Thinned ds es) :
    Thinned (if p then [] else ds) (if q then [] else es) := by
  cases p with
  | true =>
      rw [hpq rfl]
      exact .nil
  | false =>
      cases q with
      | true => exact hnil
      | false => exact h

end Thinned

/-! ## Exemptions and the denylist -/

/-- The ignore pattern comes second; apart from it the exemptions are the same. -/
theorem Wording.exemption?_eq (ignore : Option Pattern) (t : Text) :
    exemption? ignore t
      = if Text.hasLetter t && ignore.any fun pattern => pattern.occursIn t then some .ignorePattern
        else exemption? none t := by
  by_cases hletter : Text.hasLetter t = true
  · by_cases hignore : (ignore.any fun pattern => pattern.occursIn t) = true
    · simp [exemption?, hletter, hignore]
    · simp [exemption?, hletter, hignore]
  · simp [exemption?, hletter]

theorem Wording.exemption?_isSome {t : Text} (ignore : Option Pattern)
    (h : (exemption? none t).isSome = true) : (exemption? ignore t).isSome = true := by
  rw [exemption?_eq]
  split
  · rfl
  · exact h

/-- A name is on the denylist if it has one of the built-in words in it or one of the pattern's. -/
theorem Denylist.hits_ofPattern_iff {extra : Option Pattern} {name : Text} :
    (ofPattern extra).hits name = true ↔
      (∃ word ∈ builtin, Text.small word <:+: Text.small name) ∨
        ∃ pattern ∈ extra, ∃ word ∈ pattern.words, Text.small word <:+: Text.small name := by
  simp only [hits, ofPattern, List.any_eq_true, List.mem_map, exists_exists_and_eq_and,
    List.mem_append, Text.occursIn_iff_infix, or_and_right, exists_or]
  cases extra <;> simp

theorem Denylist.hits_of_hits {name : Text} (extra : Option Pattern)
    (h : (ofPattern none).hits name = true) : (ofPattern extra).hits name = true := by
  rcases hits_ofPattern_iff.mp h with hbuiltin | ⟨_, hnone, _⟩
  · exact hits_ofPattern_iff.mpr (.inl hbuiltin)
  · cases hnone

namespace Checker

/-- The checker `c'` differs from `c` in that it may take more names and texts for harmless. -/
structure Milder (c c' : Checker) : Prop extends SameFile c c' where
  naming_eq : c.settings.naming = c'.settings.naming
  hits : ∀ name, c.settings.denylist.hits name = true → c'.settings.denylist.hits name = true
  exempt : ∀ text, (Wording.exemption? c.settings.ignore text).isSome = true →
    (Wording.exemption? c'.settings.ignore text).isSome = true

theorem thinned_nil_textFindings (c : Checker) (text : Text) (span : Span) :
    Thinned (c.textFindings text span) [] := by
  unfold textFindings
  split
  · exact .nil
  · exact .drop _ _ .nil

namespace Milder

variable {c c' : Checker}

theorem textFindings (h : Milder c c') (text : Text) (span : Span) :
    Thinned (c.textFindings text span) (c'.textFindings text span) := by
  cases hexempt : Wording.exemption? c'.settings.ignore text with
  | some exemption =>
      rw [show c'.textFindings text span = [] by simp [Checker.textFindings, hexempt]]
      exact thinned_nil_textFindings c text span
  | none =>
      have hnone : Wording.exemption? c.settings.ignore text = none := by
        refine Option.not_isSome_iff_eq_none.mp fun hsome => ?_
        simpa [hexempt] using h.exempt text hsome
      simp only [Checker.textFindings, hexempt, hnone]
      exact .refl _

theorem wordingFindings (h : Milder c c') (event : Event) :
    Thinned (c.wordingFindings event) (c'.wordingFindings event) := by
  cases event with
  | script node =>
      cases node with
      | typedField modifiers key types value decorators span =>
          simp only [Checker.wordingFindings, h.surface_eq]
          apply Thinned.piecewise.ite
          rw [h.scriptSpan_eq]
          cases Script.Node.fieldLiteral? modifiers value with
          | none => exact .nil
          | some literal =>
              refine Thinned.guarded ?_ (thinned_nil_textFindings _ _ _) (h.textFindings _ _)
              cases key.fieldName? with
              | none => exact id
              | some name => exact h.hits name
      | _ => exact .nil
  | template item =>
      simp only [Checker.wordingFindings, h.surface_eq]
      apply Thinned.piecewise.ite
      cases item with
      | text value span => exact h.textFindings _ span
      | textAttribute name value structural span =>
          exact Thinned.piecewise.ite (h.textFindings value span)
      | boundAttribute name source span =>
          have hguard : (c.settings.denylist.hits name || Expression.textMentions source) = true →
              (c'.settings.denylist.hits name || Expression.textMentions source) = true := by
            rw [Bool.or_eq_true, Bool.or_eq_true]
            exact Or.imp_left (h.hits name)
          dsimp only
          cases Expression.stringLiteral? source with
          | none => exact Thinned.guarded hguard .nil .nil
          | some text =>
              exact Thinned.guarded hguard (thinned_nil_textFindings c text span)
                (h.textFindings text span)
      | boundText source span => exact .nil

theorem run (h : Milder c c') (hproblems : c.settings.problems = c'.settings.problems)
    (events : List Event) : Thinned (c.run events) (c'.run events) := by
  refine h.toSameFile.run Thinned.piecewise ?_ ?_ h.wordingFindings events
  · rw [initial, initial, h.context_eq, h.rules_eq, hproblems]
    exact .refl _
  · intro key span
    rw [h.keyFindings_eq h.naming_eq]
    exact .refl _

end Milder

end Checker

/-! ## What becomes of the pattern of an option -/

/-- What becomes of the pattern that an option is given, with the findings about it: if it is
refused, it counts as not given, and is reported at the beginning of the file. A pattern that is
empty or accepted stays, and there is no finding about it. -/
inductive Resolves (option : PatternOption) : (given used : Option Text) → List Diagnostic → Prop
  | refused {pattern : Text} {e : PatternError} (hne : pattern ≠ [])
      (h : Pattern.parse pattern = .error e) :
      Resolves option (some pattern) none [⟨⟨0, 0⟩, .invalidPattern option pattern e.message⟩]
  | usable {given : Option Text}
      (h : ∀ pattern ∈ given, pattern = [] ∨ ∃ p, Pattern.parse pattern = .ok p) :
      Resolves option given given []

theorem optionProblem?_of_usable {given : Option Text}
    (h : ∀ pattern ∈ given, pattern = [] ∨ ∃ p, Pattern.parse pattern = .ok p)
    (option : PatternOption) : optionProblem? option given = none := by
  cases given with
  | none => rfl
  | some pattern =>
      rcases h pattern rfl with rfl | ⟨p, hp⟩
      · rfl
      · unfold optionProblem? readOption
        cases pattern with
        | nil => rfl
        | cons c cs => simp [hp]

namespace Resolves

variable {option : PatternOption} {given used : Option Text} {notices : List Diagnostic}

theorem optionPattern?_eq (h : Resolves option given used notices) :
    optionPattern? given = optionPattern? used := by
  cases h with
  | refused hne hparse => simp [optionPattern?, readOption, hparse]
  | usable => rfl

theorem optionProblem?_given (h : Resolves option given used notices) :
    (optionProblem? option given).toList.map (Diagnostic.mk Span.fileStart) = notices := by
  cases h with
  | refused hne hparse => simp [optionProblem?, readOption, hparse, Span.fileStart]
  | usable husable =>
      rw [optionProblem?_of_usable husable]
      rfl

theorem optionProblem?_used (h : Resolves option given used notices) :
    optionProblem? option used = none := by
  cases h with
  | refused => rfl
  | usable husable => exact optionProblem?_of_usable husable option

end Resolves

/-! ## Runs with patterns -/

/-- The findings of a file with a pattern for names that hold no text for the user and one for texts
that are never reported. -/
def findingsWith (naming : NamingOptions) (rules : RuleSet) (file : Text) (base : Nat)
    (events : List Event) (nonUserFacing ignore : Option Text) : List Diagnostic :=
  Checker.run { Checker.ofFile (.ofOptions naming ⟨nonUserFacing, ignore⟩) rules file with
    scriptBase := base } events

section

variable (naming : NamingOptions) (rules : RuleSet) (file : Text) (base : Nat) (events : List Event)

theorem findingsWith_of_resolves {u u' g g' : Option Text} {us gs : List Diagnostic}
    (hu : Resolves .nonUserFacing u u' us) (hg : Resolves .ignore g g' gs) :
    findingsWith naming rules file base events u g
      = (if (FileContext.ofFile? naming file).isSome && rules.wording then us ++ gs else [])
        ++ findingsWith naming rules file base events u' g' := by
  generalize hc : { Checker.ofFile (.ofOptions naming ⟨u, g⟩) rules file with
    scriptBase := base } = c
  generalize hc' : { Checker.ofFile (.ofOptions naming ⟨u', g'⟩) rules file with
    scriptBase := base } = c'
  have hsame : Checker.SameFile c c' := by
    rw [← hc, ← hc']
    exact ⟨rfl, rfl, rfl, rfl⟩
  have hdenylist : c.settings.denylist = c'.settings.denylist := by
    rw [← hc, ← hc']
    exact congrArg Denylist.ofPattern hu.optionPattern?_eq
  have hignore : c.settings.ignore = c'.settings.ignore := by
    rw [← hc, ← hc']
    exact hg.optionPattern?_eq
  have hnaming : c.settings.naming = c'.settings.naming := by
    rw [← hc, ← hc']
    rfl
  have hsteps : (c.steps events).flatten = (c'.steps events).flatten :=
    hsame.stepsFrom Piecewise.eq (hsame.keyFindings_eq hnaming)
      (hsame.wordingFindings_eq hdenylist hignore) {} events
  have hinitial : c.initial
      = if (FileContext.ofFile? naming file).isSome && rules.wording then us ++ gs else [] := by
    rw [← hc, ← hu.optionProblem?_given, ← hg.optionProblem?_given, ← List.map_append]
    rfl
  have hinitial' : c'.initial = [] := by
    rw [← hc']
    simp [Checker.initial, Checker.ofFile, Settings.ofOptions, hu.optionProblem?_used,
      hg.optionProblem?_used]
  rw [findingsWith, findingsWith, hc, hc', Checker.run, Checker.run, hinitial, hinitial', hsteps,
    List.nil_append]

/-- Settings that take more names and texts for harmless only take findings about wording away. -/
theorem thinned_findingsWith {u u' g g' : Option Text}
    (hhits : ∀ name, (Denylist.ofPattern (optionPattern? u)).hits name = true →
      (Denylist.ofPattern (optionPattern? u')).hits name = true)
    (hexempt : ∀ text, (Wording.exemption? (optionPattern? g) text).isSome = true →
      (Wording.exemption? (optionPattern? g') text).isSome = true)
    (hu : optionProblem? .nonUserFacing u = optionProblem? .nonUserFacing u')
    (hg : optionProblem? .ignore g = optionProblem? .ignore g') :
    Thinned (findingsWith naming rules file base events u g)
      (findingsWith naming rules file base events u' g') := by
  have hmilder : Checker.Milder
      { Checker.ofFile (.ofOptions naming ⟨u, g⟩) rules file with scriptBase := base }
      { Checker.ofFile (.ofOptions naming ⟨u', g'⟩) rules file with scriptBase := base } :=
    ⟨⟨rfl, rfl, rfl, rfl⟩, rfl, hhits, hexempt⟩
  refine hmilder.run ?_ events
  simp [Checker.ofFile, Settings.ofOptions, hu, hg]

end

/-! ## Names that a pattern adds -/

theorem optionPattern?_of_parse {pattern : Text} {p : Pattern} (h : Pattern.parse pattern = .ok p) :
    optionPattern? (some pattern) = some p := by
  cases pattern with
  | nil => cases h
  | cons c cs => simp [optionPattern?, readOption, h]

/-- An accepted pattern for names takes effect: where a name has a word of the pattern in it, in any
case, nothing is found about the wording of the class field or the bound attribute. -/
theorem wordingFindings_of_pattern {pattern name word : Text} {p : Pattern}
    (hparse : Pattern.parse pattern = .ok p) (hword : word ∈ p.words)
    (hname : Text.small word <:+: Text.small name) (naming : NamingOptions) (ignore : Option Text)
    (rules : RuleSet) (file : Text) :
    let c := Checker.ofFile (.ofOptions naming ⟨some pattern, ignore⟩) rules file
    (∀ source span, c.wordingFindings (.template (.boundAttribute name source span)) = []) ∧
      ∀ modifiers key types value decorators span, Script.Node.fieldName? key = some name →
        c.wordingFindings (.script (.typedField modifiers key types value decorators span)) = [] := by
  intro c
  have hhits : c.settings.denylist.hits name = true := by
    refine Denylist.hits_ofPattern_iff.mpr (.inr ⟨p, ?_, word, hword, hname⟩)
    exact optionPattern?_of_parse hparse
  refine ⟨fun source span => ?_, fun modifiers key types value decorators span hkey => ?_⟩
  · simp [Checker.wordingFindings, hhits]
  · simp only [Checker.wordingFindings, hkey, Option.any_some, hhits, if_true]
    split
    · split <;> rfl
    · rfl

theorem optionProblem?_of_parse {pattern : Text} {p : Pattern} (h : Pattern.parse pattern = .ok p)
    (option : PatternOption) : optionProblem? option (some pattern) = none := by
  refine optionProblem?_of_usable ?_ option
  rintro _ ⟨⟩
  exact .inr ⟨p, h⟩

/-- Patterns extend the built-in exemptions. If a pattern is refused, the findings are those without
it, after one finding that it was refused, which is given for a file with a context if the wording
rule is on. If a pattern is accepted, the findings are those without it, apart from some about
hard-coded texts that are missing. An empty pattern counts as none. -/
theorem patterns_extend_defaults (naming : NamingOptions) (rules : RuleSet) (file : Text)
    (base : Nat) (events : List Event) :
    let found := findingsWith naming rules file base events
    (∀ (u u' g g' : Option Text) (us gs : List Diagnostic),
      Resolves .nonUserFacing u u' us → Resolves .ignore g g' gs →
      found u g
        = (if (FileContext.ofFile? naming file).isSome && rules.wording then us ++ gs else [])
          ++ found u' g') ∧
    (∀ (pattern : Text) (p : Pattern), Pattern.parse pattern = .ok p → ∀ other : Option Text,
      ((found (some pattern) other).Sublist (found none other) ∧
        ∀ d ∈ (found none other).diff (found (some pattern) other),
          ∃ text, d.violation = .noHardString text) ∧
      (found other (some pattern)).Sublist (found other none) ∧
        ∀ d ∈ (found other none).diff (found other (some pattern)),
          ∃ text, d.violation = .noHardString text) ∧
    ∀ other : Option Text,
      found (some []) other = found none other ∧ found other (some []) = found other none := by
  intro found
  refine ⟨?_, ?_, ?_⟩
  · intro u u' g g' us gs hu hg
    exact findingsWith_of_resolves naming rules file base events hu hg
  · intro pattern p hparse other
    have hnames : Thinned (found none other) (found (some pattern) other) :=
      thinned_findingsWith naming rules file base events (fun _ => Denylist.hits_of_hits _)
        (fun _ => id) (optionProblem?_of_parse hparse _).symm rfl
    have htexts : Thinned (found other none) (found other (some pattern)) :=
      thinned_findingsWith naming rules file base events (fun _ => id)
        (fun _ => Wording.exemption?_isSome _) rfl (optionProblem?_of_parse hparse _).symm
    exact ⟨⟨hnames.sublist, fun _ => hnames.of_mem_diff⟩,
      htexts.sublist, fun _ => htexts.of_mem_diff⟩
  · intro other
    exact ⟨rfl, rfl⟩

/-- A refused pattern for names beside an accepted one for texts, which takes away one of two
findings. -/
theorem patterns_refused_and_accepted :
    let events := [Event.template (.text "Welcome back".toList ⟨40, 52⟩),
      Event.template (.text "Goodbye".toList ⟨60, 67⟩)]
    let found := findingsWith {} {} "sign-in.component.html".toList 0 events
    found (some "^label$".toList) (some "Welcome".toList)
      = [⟨⟨0, 0⟩, .invalidPattern .nonUserFacing "^label$".toList
            "unsupported character '^'".toList⟩,
          ⟨⟨60, 67⟩, .noHardString "Goodbye".toList⟩] ∧
      (found none (some "Welcome".toList)).Sublist (found none none) := by
  intro events found
  have hrefused : Pattern.parse "^label$".toList = .error (.unsupportedChar '^') := by
    decide +kernel
  have haccepted : Pattern.parse "Welcome".toList
      = .ok ⟨"Welcome".toList, ["Welcome".toList]⟩ := by decide +kernel
  obtain ⟨hfallback, hextend, _⟩ :=
    patterns_extend_defaults {} {} "sign-in.component.html".toList 0 events
  have hignore : Resolves .ignore (some "Welcome".toList) (some "Welcome".toList) [] := by
    refine .usable ?_
    rintro _ ⟨⟩
    exact .inr ⟨_, haccepted⟩
  refine ⟨?_, (hextend _ _ haccepted none).2.1⟩
  exact (hfallback _ _ _ _ _ _ (.refused (by decide) hrefused) hignore).trans (by decide +kernel)

end KeyLint
