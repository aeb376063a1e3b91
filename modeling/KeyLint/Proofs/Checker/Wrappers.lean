import Mathlib.Data.List.Flatten
import KeyLint.Checker

/-!
# Wrapped expressions

Parentheses, `as`, `as const` and `satisfies` may be put around any parts of an expression, and it is
checked for the same keys. The two other forms that a value passes through, `<T>e` and `e!`, are not
looked through: around a part with keys in it they hide the keys, and they never add any.
-/

namespace KeyLint

namespace Script.Node

mutual

/-- A node with wrappers of allowed forms put around any of its parts, any number of times. -/
inductive Padded (allowed : Wrapper → Prop) : (node padded : Node) → Prop
  | wrap {form : Wrapper} {types : List Node} {node padded : Node} (hform : allowed form)
      (h : Padded allowed node padded) : Padded allowed node (.typedWrapped form types padded)
  | atom : Padded allowed .atom .atom
  | ident {name : Text} : Padded allowed (.ident name) (.ident name)
  | str {value : Option Text} {span : Span} : Padded allowed (.str value span) (.str value span)
  | template {chunks : List Chunk} {parts parts' : List Node} {span : Span}
      (h : PaddedAll allowed parts parts') :
      Padded allowed (.template chunks parts span) (.template chunks parts' span)
  | cond {test test' yes yes' no no' : Node} (htest : Padded allowed test test')
      (hyes : Padded allowed yes yes') (hno : Padded allowed no no') :
      Padded allowed (.cond test yes no) (.cond test' yes' no')
  | member {owner owner' : Node} {name : Text} (h : Padded allowed owner owner') :
      Padded allowed (.member owner name) (.member owner' name)
  | call {callee callee' : Node} {types types' args args' : List Node} {span : Span}
      (hcallee : Padded allowed callee callee') (htypes : PaddedAll allowed types types')
      (hargs : PaddedAll allowed args args') :
      Padded allowed (.typedCall callee types args span) (.typedCall callee' types' args' span)
  | spread {inner inner' : Node} (h : Padded allowed inner inner') :
      Padded allowed (.spread inner) (.spread inner')
  | wrapped {form : Wrapper} {types types' : List Node} {inner inner' : Node}
      (htypes : PaddedAll allowed types types') (h : Padded allowed inner inner') :
      Padded allowed (.typedWrapped form types inner) (.typedWrapped form types' inner')
  | instantiated {inner inner' : Node} {types types' : List Node} (h : Padded allowed inner inner')
      (htypes : PaddedAll allowed types types') :
      Padded allowed (.instantiated inner types) (.instantiated inner' types')
  | array {items items' : List Node} (h : PaddedAll allowed items items') :
      Padded allowed (.array items) (.array items')
  | object {members members' : List Node} (h : PaddedAll allowed members members') :
      Padded allowed (.object members) (.object members')
  | declarator {binding binding' : Node} {types types' : List Node} {init init' : Option Node}
      {span : Span} (hbinding : Padded allowed binding binding')
      (htypes : PaddedAll allowed types types')
      (hinit : PaddedAll allowed init.toList init'.toList) :
      Padded allowed (.typedDeclarator binding types init span)
        (.typedDeclarator binding' types' init' span)
  | assign {target target' value value' : Node} {span : Span}
      (htarget : Padded allowed target target') (hvalue : Padded allowed value value') :
      Padded allowed (.assign target value span) (.assign target' value' span)
  | property {key key' value value' : Node} {span : Span} (hkey : Padded allowed key key')
      (hvalue : Padded allowed value value') :
      Padded allowed (.property key value span) (.property key' value' span)
  | field {modifiers : Modifiers} {key key' : Node} {types types' : List Node}
      {value value' : Option Node} {decorators decorators' : List Node} {span : Span}
      (hkey : Padded allowed key key') (htypes : PaddedAll allowed types types')
      (hvalue : PaddedAll allowed value.toList value'.toList)
      (hdecorators : PaddedAll allowed decorators decorators') :
      Padded allowed (.typedField modifiers key types value decorators span)
        (.typedField modifiers key' types' value' decorators' span)
  | otherField {key key' : Node} {types types' : List Node} {value value' : Option Node}
      {decorators decorators' : List Node} (hkey : Padded allowed key key')
      (htypes : PaddedAll allowed types types')
      (hvalue : PaddedAll allowed value.toList value'.toList)
      (hdecorators : PaddedAll allowed decorators decorators') :
      Padded allowed (.otherField decorators key types value)
        (.otherField decorators' key' types' value')
  | function {decorators decorators' name name' types types' params params' returned returned' body
        body' : List Node} (hdecorators : PaddedAll allowed decorators decorators')
      (hname : PaddedAll allowed name name') (htypes : PaddedAll allowed types types')
      (hparams : PaddedAll allowed params params') (hreturned : PaddedAll allowed returned returned')
      (hbody : PaddedAll allowed body body') :
      Padded allowed (.function decorators name types params returned body)
        (.function decorators' name' types' params' returned' body')
  | classDef {decorators decorators' types types' parent parent' bases bases' members
        members' : List Node} (hdecorators : PaddedAll allowed decorators decorators')
      (htypes : PaddedAll allowed types types') (hparent : PaddedAll allowed parent parent')
      (hbases : PaddedAll allowed bases bases') (hmembers : PaddedAll allowed members members') :
      Padded allowed (.classDef decorators types parent bases members)
        (.classDef decorators' types' parent' bases' members')
  | doLoop {body body' test test' : Node} (hbody : Padded allowed body body')
      (htest : Padded allowed test test') :
      Padded allowed (.doLoop body test) (.doLoop body' test')
  | swapped {first first' second second' : List Node} (hfirst : PaddedAll allowed first first')
      (hsecond : PaddedAll allowed second second') :
      Padded allowed (.swapped first second) (.swapped first' second')
  | group {parts parts' : List Node} (h : PaddedAll allowed parts parts') :
      Padded allowed (.group parts) (.group parts')

/-- Nodes of which each may have wrappers in and around it. -/
inductive PaddedAll (allowed : Wrapper → Prop) : (nodes padded : List Node) → Prop
  | nil : PaddedAll allowed [] []
  | cons {node node' : Node} {nodes nodes' : List Node} (h : Padded allowed node node')
      (hrest : PaddedAll allowed nodes nodes') : PaddedAll allowed (node :: nodes) (node' :: nodes')

end

variable {allowed : Wrapper → Prop}

/-! ## Literals -/

@[simp] theorem literals_wrapped (form : Wrapper) (types : List Node) (node : Node) :
    (typedWrapped form types node).literals
      = if form.isTransparent then node.literals else [] := rfl

/-- Wrappers never add literals, whatever their forms. -/
theorem Padded.literals_sublist {node padded : Node} (h : Padded allowed node padded) :
    padded.literals.Sublist node.literals := by
  match h with
  | .wrap _ h =>
      rw [literals_wrapped]
      split
      · exact h.literals_sublist
      · exact List.nil_sublist _
  | .wrapped _ h =>
      rw [literals_wrapped, literals_wrapped]
      split
      · exact h.literals_sublist
      · exact List.nil_sublist _
  | .cond _ hyes hno => exact hyes.literals_sublist.append hno.literals_sublist
  | .str | .template _ | .atom | .ident | .member _ | .call _ _ _ | .spread _ | .instantiated _ _
  | .array _ | .object _ | .declarator _ _ _ | .assign _ _ | .property _ _ | .field _ _ _ _
  | .otherField _ _ _ _ | .function _ _ _ _ _ _ | .classDef _ _ _ _ _ | .doLoop _ _
  | .swapped _ _ | .group _ => exact List.Sublist.refl _

/-- Wrappers that are looked through hide no literals. -/
theorem Padded.literals_eq (hallowed : ∀ form, allowed form → form.isTransparent)
    {node padded : Node} (h : Padded allowed node padded) : padded.literals = node.literals := by
  match h with
  | .wrap hform h =>
      rw [literals_wrapped, if_pos (hallowed _ hform)]
      exact h.literals_eq hallowed
  | .wrapped _ h => rw [literals_wrapped, literals_wrapped, h.literals_eq hallowed]
  | .cond _ hyes hno =>
      simp only [literals, hyes.literals_eq hallowed, hno.literals_eq hallowed]
  | .str | .template _ | .atom | .ident | .member _ | .call _ _ _ | .spread _ | .instantiated _ _
  | .array _ | .object _ | .declarator _ _ _ | .assign _ _ | .property _ _ | .field _ _ _ _
  | .otherField _ _ _ _ | .function _ _ _ _ _ _ | .classDef _ _ _ _ _ | .doLoop _ _
  | .swapped _ _ | .group _ => rfl

/-! ## Callees -/

@[simp] theorem isTranslationMethod_wrapped (form : Wrapper) (types : List Node) (node : Node) :
    (typedWrapped form types node).isTranslationMethod
      = (form.isTransparent && node.isTranslationMethod) := by
  cases form <;> rfl

/-- Wrappers make nothing a translation method. -/
theorem Padded.isTranslationMethod {node padded : Node} (h : Padded allowed node padded)
    (hpadded : padded.isTranslationMethod) : node.isTranslationMethod := by
  match h with
  | .wrap _ h =>
      rw [isTranslationMethod_wrapped, Bool.and_eq_true] at hpadded
      exact h.isTranslationMethod hpadded.2
  | .wrapped _ h =>
      rw [isTranslationMethod_wrapped, Bool.and_eq_true] at hpadded ⊢
      exact ⟨hpadded.1, h.isTranslationMethod hpadded.2⟩
  | .cond _ _ _ | .str | .template _ | .atom | .ident | .member _ | .call _ _ _ | .spread _
  | .instantiated _ _ | .array _ | .object _ | .declarator _ _ _ | .assign _ _ | .property _ _
  | .field _ _ _ _ | .otherField _ _ _ _ | .function _ _ _ _ _ _ | .classDef _ _ _ _ _
  | .doLoop _ _ | .swapped _ _ | .group _ => exact hpadded

/-- With wrappers that are looked through, a translation method remains one. -/
theorem Padded.isTranslationMethod_eq (hallowed : ∀ form, allowed form → form.isTransparent)
    {node padded : Node} (h : Padded allowed node padded) :
    padded.isTranslationMethod = node.isTranslationMethod := by
  match h with
  | .wrap hform h =>
      rw [isTranslationMethod_wrapped, hallowed _ hform, Bool.true_and]
      exact h.isTranslationMethod_eq hallowed
  | .wrapped _ h =>
      rw [isTranslationMethod_wrapped, isTranslationMethod_wrapped,
        h.isTranslationMethod_eq hallowed]
  | .cond _ _ _ | .str | .template _ | .atom | .ident | .member _ | .call _ _ _ | .spread _
  | .instantiated _ _ | .array _ | .object _ | .declarator _ _ _ | .assign _ _ | .property _ _
  | .field _ _ _ _ | .otherField _ _ _ _ | .function _ _ _ _ _ _ | .classDef _ _ _ _ _
  | .doLoop _ _ | .swapped _ _ | .group _ => rfl

end Script.Node

/-! ## First arguments -/

namespace Checker

open Script (Wrapper Node)

variable {allowed : Wrapper → Prop} (c : Checker) (tracker : Tracker)

/-- The literals that an argument stands for: those bound to it if it is a name, or else its own. -/
def passedKeys (argument : Node) : List Literal :=
  match argument.unwrap with
  | .ident name => tracker.lookup name
  | core => c.literals core

@[simp] theorem passedKeys_wrapped (form : Wrapper) (types : List Node) (node : Node) :
    c.passedKeys tracker (.typedWrapped form types node)
      = if form.isTransparent then c.passedKeys tracker node else [] := by
  cases form <;> rfl

theorem calledKeys_cons (callee argument : Node) (more : List Node) :
    c.calledKeys tracker callee (argument :: more)
      = if callee.isTranslationMethod then c.passedKeys tracker argument else [] := by
  rw [calledKeys]
  congr 1
  cases argument with
  | typedWrapped form types node =>
      have hfirst : Node.firstArgument? (.typedWrapped form types node :: more)
          = some (Node.typedWrapped form types node).unwrap := rfl
      rw [hfirst, passedKeys]
      cases (Node.typedWrapped form types node).unwrap <;> rfl
  | _ => rfl

variable {c tracker}

/-- Wrappers never add keys to an argument. -/
theorem passedKeys_sublist {argument padded : Node} (h : argument.Padded allowed padded) :
    (c.passedKeys tracker padded).Sublist (c.passedKeys tracker argument) := by
  match h with
  | .wrap _ h =>
      rw [passedKeys_wrapped]
      split
      · exact passedKeys_sublist h
      · exact List.nil_sublist _
  | .wrapped _ h =>
      rw [passedKeys_wrapped, passedKeys_wrapped]
      split
      · exact passedKeys_sublist h
      · exact List.nil_sublist _
  | .cond htest hyes hno => exact (Node.Padded.cond htest hyes hno).literals_sublist.map _
  | .str | .template _ | .atom | .ident | .member _ | .call _ _ _ | .spread _ | .instantiated _ _
  | .array _ | .object _ | .declarator _ _ _ | .assign _ _ | .property _ _ | .field _ _ _ _
  | .otherField _ _ _ _ | .function _ _ _ _ _ _ | .classDef _ _ _ _ _ | .doLoop _ _
  | .swapped _ _ | .group _ => exact List.Sublist.refl _

/-- Wrappers that are looked through hide no keys of an argument. -/
theorem passedKeys_eq (hallowed : ∀ form, allowed form → form.isTransparent)
    {argument padded : Node} (h : argument.Padded allowed padded) :
    c.passedKeys tracker padded = c.passedKeys tracker argument := by
  match h with
  | .wrap hform h =>
      rw [passedKeys_wrapped, if_pos (hallowed _ hform)]
      exact passedKeys_eq hallowed h
  | .wrapped _ h => rw [passedKeys_wrapped, passedKeys_wrapped, passedKeys_eq hallowed h]
  | .cond htest hyes hno =>
      exact congrArg (List.map _) ((Node.Padded.cond htest hyes hno).literals_eq hallowed)
  | .str | .template _ | .atom | .ident | .member _ | .call _ _ _ | .spread _ | .instantiated _ _
  | .array _ | .object _ | .declarator _ _ _ | .assign _ _ | .property _ _ | .field _ _ _ _
  | .otherField _ _ _ _ | .function _ _ _ _ _ _ | .classDef _ _ _ _ _ | .doLoop _ _
  | .swapped _ _ | .group _ => rfl

/-! ## Calls -/

variable {callee callee' argument argument' : Node}

theorem calledKeys_sublist (hcallee : callee.Padded allowed callee')
    (hargument : argument.Padded allowed argument') (more more' : List Node) :
    (c.calledKeys tracker callee' (argument' :: more')).Sublist
      (c.calledKeys tracker callee (argument :: more)) := by
  rw [calledKeys_cons, calledKeys_cons]
  split
  · next htranslates =>
      rw [if_pos (hcallee.isTranslationMethod htranslates)]
      exact passedKeys_sublist hargument
  · exact List.nil_sublist _

theorem calledKeys_of_padded (hallowed : ∀ form, allowed form → form.isTransparent)
    (hcallee : callee.Padded allowed callee') (hargument : argument.Padded allowed argument')
    (more more' : List Node) :
    c.calledKeys tracker callee' (argument' :: more')
      = c.calledKeys tracker callee (argument :: more) := by
  rw [calledKeys_cons, calledKeys_cons, hcallee.isTranslationMethod_eq hallowed,
    passedKeys_eq hallowed hargument]

theorem findings_call (c : Checker) (tracker : Tracker) (callee : Node)
    (types arguments : List Node) (span : Span) :
    c.findings tracker (.script (.typedCall callee types arguments span))
      = if c.context.isSome && c.rules.naming then
          c.literalFindings (c.calledKeys tracker callee arguments) else [] := by
  cases hcontext : c.context.isSome <;> simp [findings, hcontext, nodeFindings, callFindings]

theorem findings_call_sublist (hcallee : callee.Padded allowed callee')
    (hargument : argument.Padded allowed argument') (types types' more more' : List Node)
    (span span' : Span) :
    (c.findings tracker (.script (.typedCall callee' types' (argument' :: more') span'))).Sublist
      (c.findings tracker (.script (.typedCall callee types (argument :: more) span))) := by
  rw [findings_call, findings_call]
  split
  · exact (calledKeys_sublist hcallee hargument more more').flatMap _
  · exact List.Sublist.refl _

end Checker

/-! ## All places -/

/-- Wrappers of some forms, wherever they are put, leave alone the literals of an expression and
what is found at a call, whatever has been found before. -/
structure KeepsKeys (allowed : Script.Wrapper → Prop) : Prop where
  literals {node padded : Script.Node} (h : node.Padded allowed padded) :
    padded.literals = node.literals
  findings {callee callee' argument argument' : Script.Node}
    (hcallee : callee.Padded allowed callee') (hargument : argument.Padded allowed argument')
    (c : Checker) (tracker : Tracker) (types types' more : List Script.Node) (span : Span) :
    c.findings tracker (.script (.typedCall callee' types' (argument' :: more) span))
      = c.findings tracker (.script (.typedCall callee types (argument :: more) span))

/-- A literal behind a wrapper is found only if the wrapper is looked through. -/
theorem KeepsKeys.isTransparent {allowed : Script.Wrapper → Prop} (h : KeepsKeys allowed)
    {form : Script.Wrapper} (hform : allowed form) : form.isTransparent := by
  have hpadded : (Script.Node.str (some []) ⟨0, 2⟩).Padded allowed
      (.wrapped form (.str (some []) ⟨0, 2⟩)) := .wrap hform .str
  have hliterals := h.literals hpadded
  rw [Script.Node.literals_wrapped] at hliterals
  cases hhidden : form.isTransparent with
  | true => rfl
  | false =>
      rw [hhidden] at hliterals
      cases hliterals

theorem keepsKeys_of_isTransparent {allowed : Script.Wrapper → Prop}
    (hallowed : ∀ form, allowed form → form.isTransparent) : KeepsKeys allowed where
  literals h := h.literals_eq hallowed
  findings hcallee hargument c tracker types types' more span := by
    rw [Checker.findings_call, Checker.findings_call,
      Checker.calledKeys_of_padded hallowed hcallee hargument more more]

theorem Script.Wrapper.isTransparent_iff (form : Script.Wrapper) :
    form.isTransparent ↔ form ≠ .assertion ∧ form ≠ .nonNull := by
  cases form <;> decide

/-- Wrappers of whatever forms add no keys anywhere. They hide none just if neither `<T>e` nor `e!`
is among the forms. -/
theorem keys_behind_wrappers (allowed : Script.Wrapper → Prop) :
    (∀ node padded : Script.Node, node.Padded allowed padded →
      padded.literals.Sublist node.literals) ∧
    (∀ (c : Checker) (tracker : Tracker) (callee callee' argument argument' : Script.Node)
        (types types' more : List Script.Node) (span : Span),
      callee.Padded allowed callee' → argument.Padded allowed argument' →
      (c.findings tracker (.script (.typedCall callee' types' (argument' :: more) span))).Sublist
        (c.findings tracker (.script (.typedCall callee types (argument :: more) span)))) ∧
    (KeepsKeys allowed ↔ ∀ form, allowed form → form ≠ .assertion ∧ form ≠ .nonNull) := by
  refine ⟨fun node padded h => h.literals_sublist, ?_, ?_⟩
  · intro c tracker callee callee' argument argument' types types' more span hcallee hargument
    exact Checker.findings_call_sublist hcallee hargument types types' more more span span
  · simp only [← Script.Wrapper.isTransparent_iff]
    exact ⟨fun h form hform => h.isTransparent hform, keepsKeys_of_isTransparent⟩

/-- A literal in `'a.b'!` and in `<T>'a.b'`, and a key that `this.translate!` is called with. -/
theorem keys_hidden_by_wrappers :
    ¬ KeepsKeys (fun _ => True) ∧
      (Script.Node.wrapped .nonNull (.str (some "a.b".toList) ⟨0, 5⟩)).literals
        ≠ (Script.Node.str (some "a.b".toList) ⟨0, 5⟩).literals ∧
      (Script.Node.wrapped .assertion (.str (some "a.b".toList) ⟨3, 8⟩)).literals
        ≠ (Script.Node.str (some "a.b".toList) ⟨3, 8⟩).literals ∧
      (Checker.ofFile (.ofOptions {} {}) {} "a.component.ts".toList).findings {}
          (.script (.call (.wrapped .nonNull (.member .atom "translate".toList))
            [.str (some "b.c".toList) ⟨16, 21⟩] ⟨0, 22⟩))
        ≠ (Checker.ofFile (.ofOptions {} {}) {} "a.component.ts".toList).findings {}
          (.script (.call (.member .atom "translate".toList)
            [.str (some "b.c".toList) ⟨16, 21⟩] ⟨0, 22⟩)) := by
  refine ⟨fun h => ?_, by decide +kernel, by decide +kernel, by decide +kernel⟩
  have htransparent : Script.Wrapper.nonNull.isTransparent := h.isTransparent trivial
  cases htransparent

end KeyLint
