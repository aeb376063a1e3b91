import Mathlib.Data.List.Forall2
import KeyLint.Checker

/-!
# Keys behind names

A call may pass a name instead of a key. The keys that it is then checked for are the literals of
all right-hand sides that the name has been bound to by the events before the call, in the order of
these events. No other event has an influence, and a later binding takes nothing away.
-/

namespace KeyLint

namespace Script.Node

/-! ## Literals of a right-hand side -/

/-- A node is another one with parentheses and the like around it, if with anything. -/
inductive Wraps : (node core : Node) → Prop
  | bare {core : Node} : Wraps core core
  | parens {types : List Node} {node core : Node} (h : Wraps node core) :
      Wraps (.typedWrapped .parens types node) core
  | asType {types : List Node} {node core : Node} (h : Wraps node core) :
      Wraps (.typedWrapped .asType types node) core
  | asConst {types : List Node} {node core : Node} (h : Wraps node core) :
      Wraps (.typedWrapped .asConst types node) core
  | satisfies {types : List Node} {node core : Node} (h : Wraps node core) :
      Wraps (.typedWrapped .satisfies types node) core

/-- A node without literals of its own: no string that is a text, no conditional, no template
literal, and none of the wrappers that are looked through. -/
def IsMute : Node → Prop
  | .str value _ => value = none
  | .cond .. | .template .. => False
  | .typedWrapped form _ _ => form = .assertion ∨ form = .nonNull
  | _ => True

/-- The literals that an expression spells out, from left to right: a string, those of both branches
of a conditional, and the pieces of a template literal that are not empty. -/
inductive Spells : Node → List Literal → Prop
  | str {value : Text} {span : Span} : Spells (.str (some value) span) [⟨value, span⟩]
  | cond {test yes no : Node} {ls ms : List Literal} (hyes : Spells yes ls) (hno : Spells no ms) :
      Spells (.cond test yes no) (ls ++ ms)
  | template {chunks : List Chunk} {parts : List Node} {span : Span} :
      Spells (.template chunks parts span)
        ((chunks.map fun chunk => ⟨chunk.cooked.getD chunk.raw, chunk.span⟩).filter
          fun literal => literal.value ≠ [])
  | wrapped {node core : Node} {ls : List Literal} (h : Wraps node core) (hcore : Spells core ls) :
      Spells node ls
  | mute {node : Node} (h : node.IsMute) : Spells node []

theorem Wraps.unwrap_eq {node core : Node} (h : Wraps node core) : node.unwrap = core.unwrap := by
  induction h with
  | bare => rfl
  | parens _ ih => exact ih
  | asType _ ih => exact ih
  | asConst _ ih => exact ih
  | satisfies _ ih => exact ih

theorem Wraps.literals_eq {node core : Node} (h : Wraps node core) :
    node.literals = core.literals := by
  induction h with
  | bare => rfl
  | parens _ ih => simpa [literals, Wrapper.isTransparent] using ih
  | asType _ ih => simpa [literals, Wrapper.isTransparent] using ih
  | asConst _ ih => simpa [literals, Wrapper.isTransparent] using ih
  | satisfies _ ih => simpa [literals, Wrapper.isTransparent] using ih

theorem filterMap_literal? (chunks : List Chunk) :
    chunks.filterMap Chunk.literal?
      = (chunks.map fun chunk => ⟨chunk.cooked.getD chunk.raw, chunk.span⟩).filter
          fun literal : Literal => literal.value ≠ [] := by
  induction chunks with
  | nil => rfl
  | cons chunk chunks ih =>
      by_cases h : chunk.cooked.getD chunk.raw = []
      · simp [Chunk.literal?, h, ih]
      · simp [Chunk.literal?, h, ih]

theorem IsMute.literals_eq {node : Node} (h : node.IsMute) : node.literals = [] := by
  cases node with
  | str value span =>
      cases value with
      | none => rfl
      | some value => cases h
  | cond => cases h
  | template => cases h
  | typedWrapped form types inner =>
      rcases h with rfl | rfl
      · rfl
      · rfl
  | _ => rfl

theorem Spells.literals_eq {node : Node} {ls : List Literal} (h : Spells node ls) :
    node.literals = ls := by
  induction h with
  | str => rfl
  | cond _ _ ihyes ihno => simp [literals, ihyes, ihno]
  | template => exact filterMap_literal? _
  | wrapped hwraps _ ih => rw [hwraps.literals_eq, ih]
  | mute hmute => exact hmute.literals_eq

theorem spells_literals : (node : Node) → Spells node node.literals
  | .str (some value) span => .str
  | .str none span => .mute rfl
  | .cond test yes no => .cond (spells_literals yes) (spells_literals no)
  | .template chunks parts span => by
      rw [show (Node.template chunks parts span).literals = _ from filterMap_literal? chunks]
      exact .template
  | .typedWrapped .parens _ inner => .wrapped (.parens .bare) (spells_literals inner)
  | .typedWrapped .asType _ inner => .wrapped (.asType .bare) (spells_literals inner)
  | .typedWrapped .asConst _ inner => .wrapped (.asConst .bare) (spells_literals inner)
  | .typedWrapped .satisfies _ inner => .wrapped (.satisfies .bare) (spells_literals inner)
  | .typedWrapped .assertion _ inner => .mute (.inl rfl)
  | .typedWrapped .nonNull _ inner => .mute (.inr rfl)
  | .atom | .ident _ | .member _ _ | .typedCall _ _ _ _ | .spread _ | .instantiated _ _ | .array _
  | .object _ | .typedDeclarator _ _ _ _ | .assign _ _ _ | .property _ _ _
  | .typedField _ _ _ _ _ _ | .otherField _ _ _ _ | .function _ _ _ _ _ _ | .classDef _ _ _ _ _
  | .doLoop _ _ | .swapped _ _ | .group _ =>
      .mute trivial

theorem forall₂_spells_iff {nodes : List Node} {literals : List (List Literal)} :
    List.Forall₂ Spells nodes literals ↔ literals = nodes.map Node.literals := by
  constructor
  · intro h
    induction h with
    | nil => rfl
    | cons hspells _ ih => rw [List.map_cons, hspells.literals_eq, ih]
  · rintro rfl
    rw [List.forall₂_map_right_iff, List.forall₂_same]
    exact fun node _ => spells_literals node

end Script.Node

/-! ## What a name is bound to -/

/-- The right-hand side that an event binds a name to: that of a declaration with an initializer, or
of an assignment. -/
def Event.boundTo? (name : Text) : Event → Option Script.Node
  | .script (.typedDeclarator (.ident other) _ (some init) _) =>
    if other = name then some init else none
  | .script (.assign (.ident other) value _) => if other = name then some value else none
  | _ => none

namespace Checker

/-- The bindings after several events. -/
def trackAll (c : Checker) (tracker : Tracker) (events : List Event) : Tracker :=
  events.foldl c.track tracker

/-- An event adds the literals of its right-hand side to a name that it binds, and nothing to any
other name. -/
theorem lookup_track (c : Checker) (tracker : Tracker) (event : Event) (name : Text) :
    (c.track tracker event).lookup name
      = tracker.lookup name ++ (event.boundTo? name).toList.flatMap c.literals := by
  unfold track
  split
  · rw [Tracker.lookup_record, Event.boundTo?]
    split <;> simp
  · rw [Tracker.lookup_record, Event.boundTo?]
    split <;> simp
  · next hdeclarator hassign =>
      have hnone : event.boundTo? name = none := by
        unfold Event.boundTo?
        split
        · exact absurd rfl (hdeclarator _ _ _ _)
        · exact absurd rfl (hassign _ _ _)
        · rfl
      simp [hnone]

theorem lookup_trackAll (c : Checker) (tracker : Tracker) (events : List Event) (name : Text) :
    (c.trackAll tracker events).lookup name
      = tracker.lookup name ++ (events.filterMap (Event.boundTo? name)).flatMap c.literals := by
  induction events generalizing tracker with
  | nil => simp [trackAll]
  | cons event events ih =>
      have hcons : c.trackAll tracker (event :: events)
          = c.trackAll (c.track tracker event) events := rfl
      rw [hcons, ih, lookup_track, List.append_assoc]
      cases h : event.boundTo? name <;> simp [h]

theorem stepsFrom_append (c : Checker) (tracker : Tracker) (before after : List Event) :
    c.stepsFrom tracker (before ++ after)
      = c.stepsFrom tracker before ++ c.stepsFrom (c.trackAll tracker before) after := by
  induction before generalizing tracker with
  | nil => rfl
  | cons event before ih =>
      rw [List.cons_append, stepsFrom, ih]
      rfl

/-- One more event adds what is found at it with the bindings of the events before. -/
theorem run_concat (c : Checker) (events : List Event) (event : Event) :
    c.run (events ++ [event]) = c.run events ++ c.findings (c.trackAll {} events) event := by
  simp [run, steps, stepsFrom_append, stepsFrom]

/-! ## Calls -/

theorem literalFindings_eq {c : Checker} {context : FileContext} (h : c.context = some context)
    (nodes : List Script.Node) :
    c.literalFindings (nodes.flatMap c.literals)
      = (nodes.flatMap Script.Node.literals).filterMap fun literal =>
          (Key.fault? context c.settings.naming.ignoredPrefixes literal.value).map fun fault =>
            ⟨c.scriptSpan literal.span, fault⟩ := by
  have hmap : nodes.flatMap c.literals = (nodes.flatMap Script.Node.literals).map
      fun literal => { literal with span := c.scriptSpan literal.span } :=
    List.map_flatMap.symm
  rw [hmap, literalFindings, List.flatMap_map, List.filterMap_eq_flatMap_toList]
  simp only [keyFindings, h]

theorem calledKeys_of_name {callee owner argument : Script.Node} {method name : Text}
    (hcallee : callee.Wraps (.member owner method))
    (hmethod : method = "translate".toList ∨ method = "instant".toList)
    (hargument : argument.Wraps (.ident name)) (c : Checker) (tracker : Tracker)
    (more : List Script.Node) :
    c.calledKeys tracker callee (argument :: more) = tracker.lookup name := by
  have hmember : callee.unwrap = .member owner method := hcallee.unwrap_eq
  have hname : argument.unwrap = .ident name := hargument.unwrap_eq
  have htranslates : callee.isTranslationMethod = true := by
    rw [Script.Node.isTranslationMethod, hmember]
    simpa [Script.Node.translationMethods] using hmethod
  have hfirst : Script.Node.firstArgument? (argument :: more) = some (.ident name) := by
    rw [← hname]
    cases hargument <;> rfl
  rw [calledKeys, if_pos htranslates, hfirst]

/-- A call of a translation method with a name for its key is checked for the literals of all
right-hand sides that the name was bound to before, and for nothing else. -/
theorem run_call_of_name {naming : NamingOptions} {rules : RuleSet} {file : Text}
    {context : FileContext} (hcontext : FileContext.ofFile? naming file = some context)
    (hrules : rules.naming = true) {callee owner argument : Script.Node} {method name : Text}
    (hcallee : callee.Wraps (.member owner method))
    (hmethod : method = "translate".toList ∨ method = "instant".toList)
    (hargument : argument.Wraps (.ident name)) (wording : WordingOptions) (base : Nat)
    (types more : List Script.Node) (span : Span) (before : List Event) :
    ∃ literals : List (List Literal),
      List.Forall₂ Script.Node.Spells (before.filterMap (Event.boundTo? name)) literals ∧
      Checker.run { Checker.ofFile (.ofOptions naming wording) rules file with scriptBase := base }
          (before ++ [.script (.typedCall callee types (argument :: more) span)])
        = Checker.run { Checker.ofFile (.ofOptions naming wording) rules file with
            scriptBase := base } before
          ++ literals.flatten.filterMap fun literal =>
            (Key.fault? context naming.ignoredPrefixes literal.value).map fun fault =>
              ⟨⟨literal.span.start - base, literal.span.stop - base⟩, fault⟩ := by
  refine ⟨_, Script.Node.forall₂_spells_iff.mpr rfl, ?_⟩
  generalize hc : { Checker.ofFile (.ofOptions naming wording) rules file with
    scriptBase := base } = c
  have hc_context : c.context = some context := by
    rw [← hc]
    exact hcontext
  have hc_rules : c.rules.naming = true := by
    rw [← hc]
    exact hrules
  have hfindings : ∀ tracker,
      c.findings tracker (.script (.typedCall callee types (argument :: more) span))
        = c.literalFindings (tracker.lookup name) := by
    intro tracker
    have hcall : c.findings tracker (.script (.typedCall callee types (argument :: more) span))
        = c.callFindings tracker callee (argument :: more) := if_pos (by rw [hc_context]; rfl)
    rw [hcall, callFindings, if_pos hc_rules, calledKeys_of_name hcallee hmethod hargument]
  rw [run_concat, hfindings, lookup_trackAll, Tracker.lookup_empty, List.nil_append,
    literalFindings_eq hc_context, List.flatMap_def, ← hc]
  rfl

/-- A name that is declared with a conditional and assigned later, with another name between. -/
theorem run_call_of_reassigned_name :
    Checker.run { Checker.ofFile (.ofOptions {} {}) {} "sign-in.component.ts".toList with
        scriptBase := 10 }
      [.script (.declarator (.ident "key".toList) (some (.cond .atom
          (.str (some "a.b".toList) ⟨20, 25⟩) (.str (some "signIn.ok".toList) ⟨28, 39⟩))) ⟨14, 39⟩),
        .script (.assign (.ident "other".toList) (.str (some "d".toList) ⟨50, 53⟩) ⟨42, 53⟩),
        .script (.assign (.ident "key".toList) (.str (some "c".toList) ⟨8, 11⟩) ⟨2, 11⟩),
        .script (.call (.wrapped .parens (.member .atom "instant".toList))
          [.wrapped .asType (.ident "key".toList), .spread .atom] ⟨60, 90⟩)]
      = [⟨⟨10, 15⟩, .mismatchedKey "a.b".toList "signIn".toList⟩,
        ⟨⟨0, 1⟩, .mismatchedKey "c".toList "signIn".toList⟩] := by
  have hcontext : FileContext.ofFile? {} "sign-in.component.ts".toList
      = some ⟨"signIn".toList, .component⟩ := by decide +kernel
  have hrules : ({} : RuleSet).naming = true := rfl
  have hcallee : (Script.Node.wrapped .parens (.member .atom "instant".toList)).Wraps
      (.member .atom "instant".toList) := .parens .bare
  have hargument : (Script.Node.wrapped .asType (.ident "key".toList)).Wraps
      (.ident "key".toList) := .asType .bare
  obtain ⟨literals, hspells, hrun⟩ := run_call_of_name hcontext hrules hcallee (.inr rfl) hargument
    {} 10 [] [.spread .atom] ⟨60, 90⟩
    [.script (.declarator (.ident "key".toList) (some (.cond .atom
        (.str (some "a.b".toList) ⟨20, 25⟩) (.str (some "signIn.ok".toList) ⟨28, 39⟩))) ⟨14, 39⟩),
      .script (.assign (.ident "other".toList) (.str (some "d".toList) ⟨50, 53⟩) ⟨42, 53⟩),
      .script (.assign (.ident "key".toList) (.str (some "c".toList) ⟨8, 11⟩) ⟨2, 11⟩)]
  rw [Script.Node.forall₂_spells_iff.mp hspells] at hrun
  exact hrun.trans (by decide +kernel)

end Checker

end KeyLint
