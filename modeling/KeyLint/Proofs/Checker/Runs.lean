import KeyLint.Proofs.Checker.Handlers

/-!
# Comparing two runs

Two checkers for the same file that differ in their settings go through the events in step: what
script variables are bound to does not depend on the settings. Hence, whatever relates the findings
of both about each key and each text relates the findings of both runs, provided that it goes along
with concatenation.
-/

namespace KeyLint

/-- A relation between lists of findings that goes along with concatenation. -/
structure Piecewise (R : List Diagnostic → List Diagnostic → Prop) : Prop where
  nil : R [] []
  append : ∀ {ds es ds' es' : List Diagnostic}, R ds es → R ds' es' → R (ds ++ ds') (es ++ es')

namespace Piecewise

variable {R : List Diagnostic → List Diagnostic → Prop}

theorem flatMap {α : Type} {f g : α → List Diagnostic} (hR : Piecewise R)
    (h : ∀ x, R (f x) (g x)) (xs : List α) : R (xs.flatMap f) (xs.flatMap g) := by
  induction xs with
  | nil => exact hR.nil
  | cons x xs ih => exact hR.append (h x) ih

theorem ite {p : Prop} [Decidable p] {ds es : List Diagnostic} (hR : Piecewise R) (h : R ds es) :
    R (if p then ds else []) (if p then es else []) := by
  split
  · exact h
  · exact hR.nil

theorem eq : Piecewise Eq where
  nil := rfl
  append h h' := by rw [h, h']

end Piecewise

namespace Checker

/-- Two checkers look at the same file with the same rules. -/
structure SameFile (c c' : Checker) : Prop where
  rules_eq : c.rules = c'.rules
  context_eq : c.context = c'.context
  surface_eq : c.surface = c'.surface
  scriptBase_eq : c.scriptBase = c'.scriptBase

namespace SameFile

variable {c c' : Checker} {R : List Diagnostic → List Diagnostic → Prop}

theorem scriptSpan_eq (h : SameFile c c') : c.scriptSpan = c'.scriptSpan := by
  funext span
  rw [scriptSpan, scriptSpan, h.scriptBase_eq]

theorem literals_eq (h : SameFile c c') : c.literals = c'.literals := by
  funext node
  rw [literals, literals, h.scriptSpan_eq]

theorem track_eq (h : SameFile c c') (tracker : Tracker) (event : Event) :
    c.track tracker event = c'.track tracker event := by
  unfold track
  rw [h.literals_eq]

theorem calledKeys_eq (h : SameFile c c') (tracker : Tracker) (callee : Script.Node)
    (arguments : List Script.Node) :
    c.calledKeys tracker callee arguments = c'.calledKeys tracker callee arguments := by
  rw [calledKeys, calledKeys, h.literals_eq]

theorem keyFindings_eq (h : SameFile c c') (hnaming : c.settings.naming = c'.settings.naming)
    (key : Text) (span : Span) : c.keyFindings key span = c'.keyFindings key span := by
  rw [keyFindings, keyFindings, h.context_eq, hnaming]

theorem wordingFindings_eq (h : SameFile c c')
    (hdenylist : c.settings.denylist = c'.settings.denylist)
    (hignore : c.settings.ignore = c'.settings.ignore) (event : Event) :
    c.wordingFindings event = c'.wordingFindings event := by
  have htext : c.textFindings = c'.textFindings := by
    funext text span
    rw [textFindings, textFindings, hignore]
  unfold wordingFindings
  rw [h.surface_eq, h.scriptSpan_eq, hdenylist, htext]

/-- The naming rule looks at the same keys, whatever the settings are. -/
theorem namingFindings (h : SameFile c c') (hR : Piecewise R)
    (hkey : ∀ key span, R (c.keyFindings key span) (c'.keyFindings key span)) (tracker : Tracker)
    (event : Event) : R (c.namingFindings tracker event) (c'.namingFindings tracker event) := by
  have hexpression : ∀ source span,
      R (c.expressionFindings source span) (c'.expressionFindings source span) :=
    fun source span => hR.flatMap (fun key => hkey key span) _
  have hliterals : ∀ literals, R (c.literalFindings literals) (c'.literalFindings literals) :=
    fun literals => hR.flatMap (fun literal : Literal => hkey literal.value literal.span) literals
  cases event with
  | script node =>
      cases node with
      | typedCall callee types arguments span =>
          simp only [Checker.namingFindings, h.calledKeys_eq]
          exact hliterals _
      | property key value span =>
          simp only [Checker.namingFindings, h.scriptSpan_eq]
          apply hR.ite
          split
          · exact hexpression _ _
          · exact hR.nil
      | _ => exact hR.nil
  | template item =>
      cases item with
      | text value span => exact hR.ite (hexpression value span)
      | textAttribute name value structural span => exact hR.ite (hexpression value span)
      | boundAttribute name source span => exact hR.ite (hexpression source span)
      | boundText source span => exact hR.ite (hexpression source span)

theorem findings (h : SameFile c c') (hR : Piecewise R)
    (hkey : ∀ key span, R (c.keyFindings key span) (c'.keyFindings key span))
    (hword : ∀ event, R (c.wordingFindings event) (c'.wordingFindings event)) (tracker : Tracker)
    (event : Event) : R (c.findings tracker event) (c'.findings tracker event) := by
  rw [findings_eq, findings_eq, h.context_eq, chosenFindings, chosenFindings, h.rules_eq]
  apply hR.ite
  apply hR.append
  · exact hR.ite (h.namingFindings hR hkey tracker event)
  · exact hR.ite (hword event)

theorem stepsFrom (h : SameFile c c') (hR : Piecewise R)
    (hkey : ∀ key span, R (c.keyFindings key span) (c'.keyFindings key span))
    (hword : ∀ event, R (c.wordingFindings event) (c'.wordingFindings event)) (tracker : Tracker)
    (events : List Event) :
    R (c.stepsFrom tracker events).flatten (c'.stepsFrom tracker events).flatten := by
  induction events generalizing tracker with
  | nil => exact hR.nil
  | cons event events ih =>
      rw [Checker.stepsFrom, Checker.stepsFrom, List.flatten_cons, List.flatten_cons, h.track_eq]
      exact hR.append (h.findings hR hkey hword tracker event) (ih _)

/-- Two runs are related as soon as their findings about the settings, about each key and about the
wording at each event are. -/
theorem run (h : SameFile c c') (hR : Piecewise R) (hinitial : R c.initial c'.initial)
    (hkey : ∀ key span, R (c.keyFindings key span) (c'.keyFindings key span))
    (hword : ∀ event, R (c.wordingFindings event) (c'.wordingFindings event))
    (events : List Event) : R (c.run events) (c'.run events) :=
  hR.append hinitial (h.stepsFrom hR hkey hword {} events)

end SameFile

end Checker

end KeyLint
