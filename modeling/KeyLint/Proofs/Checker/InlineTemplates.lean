import KeyLint.Proofs.Checker.Rules
import KeyLint.Proofs.Template.Keys

/-!
# Inline templates

A template in a script is looked into for keys as one text, a template in a file of its own item by
item. Both ways the same keys are checked, as long as keys stand in interpolations only. A plain
attribute is looked at with its character references decoded, so what is written in it does not tell
alone whether it mentions the translation pipe.
-/

namespace KeyLint

/-! ## The keys that are checked -/

namespace Checker

/-- The keys that the naming rule checks at an event, each with the span it is reported at. -/
def checkedKeys (c : Checker) (tracker : Tracker) : Event → List Literal
  | .script (.typedCall callee _ arguments _) => c.calledKeys tracker callee arguments
  | .script (.property key value _) =>
    if key.isTemplateKey then
      value.markup?.toList.flatMap fun (markup, span) =>
        (Expression.keys markup).map (⟨·, c.scriptSpan span⟩)
    else []
  | .script _ => []
  | .template item => item.keys.map (⟨·, item.span⟩)

theorem literalFindings_keys (c : Checker) (source : Text) (span : Span) :
    c.literalFindings ((Expression.keys source).map (⟨·, span⟩))
      = c.expressionFindings source span := by
  rw [literalFindings, List.flatMap_map, expressionFindings]

/-- What the naming rule finds at an event is what it finds about the keys it checks there. -/
theorem namingFindings_eq (c : Checker) (tracker : Tracker) (event : Event) :
    c.namingFindings tracker event = c.literalFindings (c.checkedKeys tracker event) := by
  cases event with
  | script node =>
      cases node with
      | property key value span =>
          simp only [namingFindings, checkedKeys]
          split
          · cases value.markup? with
            | none => rfl
            | some found => simp [literalFindings_keys]
          · rfl
      | _ => rfl
  | template item =>
      cases item with
      | text | textAttribute | boundAttribute | boundText =>
          simp only [namingFindings, checkedKeys, Template.Item.keys, Template.Item.searched?]
          split
          · simp [Template.Item.span, literalFindings_keys]
          · rfl

def keysAt (c : Checker) (tracker : Tracker) (event : Event) : List Text :=
  (c.checkedKeys tracker event).map Literal.value

theorem keysAt_template (c : Checker) (tracker : Tracker) (item : Template.Item) :
    c.keysAt tracker (.template item) = item.keys := by
  simp [keysAt, checkedKeys, Function.comp_def]

theorem keysAt_property (c : Checker) (tracker : Tracker) {key value : Script.Node}
    {markup : Text} {place : Span} (hkey : key.isTemplateKey = true)
    (hvalue : value.markup? = some (markup, place)) (span : Span) :
    c.keysAt tracker (.script (.property key value span)) = Expression.keys markup := by
  simp [keysAt, checkedKeys, hkey, hvalue, Function.comp_def]

def violationsAt (c : Checker) (tracker : Tracker) (event : Event) : List Violation :=
  (c.namingFindings tracker event).map Diagnostic.violation

theorem map_violation_keyFindings (c : Checker) (key : Text) (span : Span) :
    (c.keyFindings key span).map Diagnostic.violation
      = (c.keyFindings key Span.fileStart).map Diagnostic.violation := by
  unfold keyFindings
  cases c.context with
  | none => rfl
  | some context => simp [Option.toList_map, Function.comp_def]

/-- The violations at an event are those of its keys, wherever the keys stand. -/
theorem violationsAt_eq (c : Checker) (tracker : Tracker) (event : Event) :
    c.violationsAt tracker event
      = (c.keysAt tracker event).flatMap fun key =>
          (c.keyFindings key Span.fileStart).map Diagnostic.violation := by
  rw [violationsAt, namingFindings_eq, literalFindings, List.map_flatMap, keysAt, List.flatMap_map]
  exact congrArg (List.flatMap · _) (funext fun literal => c.map_violation_keyFindings _ _)

end Checker

/-! ## Templates that are checked alike -/

/-- What `f` gives for a markup that is the value of a `template` property is what it gives for the
items of the markup, one after the other. -/
def SameInline {α : Type} (f : Checker → Tracker → Event → List α) (markup : Text) : Prop :=
  ∃ items, Template.items markup = .ok items ∧
    ∀ (c : Checker) (tracker : Tracker) (key value : Script.Node) (place span : Span),
      key.isTemplateKey = true → value.markup? = some (markup, place) →
        f c tracker (.script (.property key value span))
          = items.flatMap fun item => f c tracker (.template item)

theorem sameInline_keysAt_iff {markup : Text} {items : List Template.Item}
    (hitems : Template.items markup = .ok items) :
    SameInline Checker.keysAt markup
      ↔ Expression.keys markup = items.flatMap Template.Item.keys := by
  constructor
  · rintro ⟨items', hitems', hsame⟩
    rw [hitems] at hitems'
    cases hitems'
    have hkeys := hsame (.ofFile (.ofOptions {} {}) {} []) {} (.ident "template".toList)
      (.str (some markup) default) default default rfl rfl
    rwa [Checker.keysAt_property _ _ rfl rfl, funext (Checker.keysAt_template _ _)] at hkeys
  · intro hkeys
    refine ⟨items, hitems, fun c tracker key value place span hkey hvalue => ?_⟩
    rw [c.keysAt_property tracker hkey hvalue, hkeys, funext (c.keysAt_template tracker)]

theorem SameInline.violationsAt {markup : Text} (h : SameInline Checker.keysAt markup) :
    SameInline Checker.violationsAt markup := by
  obtain ⟨items, hitems, hsame⟩ := h
  refine ⟨items, hitems, fun c tracker key value place span hkey hvalue => ?_⟩
  simp only [c.violationsAt_eq, hsame c tracker key value place span hkey hvalue,
    List.flatMap_assoc]

section

open Template

/-- A title in a tag. -/
def titleOf (title : Text) (hquote : '"' ∉ title) : AttributePiece where
  blanks := " ".toList
  name := "title".toList
  value := some ⟨'"', title, .inl rfl, hquote⟩
  blanks_ne := by decide
  blank := by simp [Text.isAsciiBlank]
  name_ne := by decide
  isName := by simp [Text.isAsciiBlank]

theorem isInert_titleOf {title : Text} (hquote : '"' ∉ title)
    (hfree : ∀ c ∈ title, c ≠ '\x7b' ∧ c ≠ '\x7d') (hpipe : ¬ MentionsPipe title) :
    (titleOf title hquote).IsInert where
  name_free := show ∀ c ∈ "title".toList, c ≠ '\x7b' ∧ c ≠ '\x7d' by simp
  value_free := hfree
  name := show ¬ MentionsPipe "title".toList by decide +kernel
  value := hpipe

/-- An interpolation before an element with an attribute. -/
def boundThenTag (e : Text) (hfree : ¬ ['\x7d', '\x7d'] <:+: e) (hlast : e.getLast? ≠ some '\x7d')
    (a : AttributePiece) : List Piece :=
  [.region (.inline (.interpolation e hfree hlast)),
   .markup (.startTag ⟨'p', [], [a], [], by decide, by simp, by simp⟩ false
     fun _ => (by decide : ∀ raw ∈ rawElements, Text.eqIgnoringAsciiCase raw ['p'] = false)),
   .markup (.endTag "p".toList (by decide))]

theorem isSimple_boundThenTag {p : AttributePiece → Prop} {e : Text}
    {hfree : ¬ ['\x7d', '\x7d'] <:+: e} {hlast : e.getLast? ≠ some '\x7d'} {a : AttributePiece}
    (ha : p a) : ∀ piece ∈ boundThenTag e hfree hlast a, piece.IsSimple p := by
  simp [boundThenTag, Piece.IsSimple, Inline.IsSimple, ha]

/-- A template of texts, interpolations and tags in which only interpolations can hold keys is
checked for the same keys in a script as in a file of its own, and the same violations are found. -/
theorem inline_template_checked_alike {pieces : List Piece}
    (hpieces : ∀ piece ∈ pieces, piece.IsSimple AttributePiece.IsInertDecoded)
    (hbound : ∃ i, .region (.inline i) ∈ pieces ∧ i.isInterpolation = true)
    (hread : ¬ "read".toList <:+: render pieces) :
    SameInline Checker.keysAt (render pieces) ∧ SameInline Checker.violationsAt (render pieces) := by
  have hunits : Expression.interpolations (render pieces) = pieces.flatMap Piece.units :=
    Expression.interpolations_flatMap fun piece hpiece =>
      (hpieces piece hpiece).interpolations_append
  have hne : Expression.interpolations (render pieces) ≠ [] := by
    obtain ⟨i, hi, hinterpolation⟩ := hbound
    rw [hunits, Ne, List.flatMap_eq_nil_iff]
    intro hall
    have hnone := i.units_eq_nil_iff.mp (hall _ hi)
    rw [hinterpolation] at hnone
    cases hnone
  have hitems : items (render pieces) = .ok (itemsAfter { start := 0 } pieces) :=
    itemsFrom_render pieces [] 0
  have hkeys := flatMap_keys_itemsAfter hpieces { start := 0 } (by simp) hread
  have hsame : SameInline Checker.keysAt (render pieces) := by
    rw [sameInline_keysAt_iff hitems, Expression.keys_of_interpolations hne hread, hunits, hkeys]
    rfl
  exact ⟨hsame, hsame.violationsAt⟩

/-- The title is decoded, and neither before nor after that it mentions the translation pipe. -/
theorem inline_template_checked_alike_with_title :
    items "\x7b\x7b 'a.b' | transloco \x7d\x7d<p title=\"B &amp; C\"></p>".toList
        = .ok [.boundText "\x7b\x7b 'a.b' | transloco \x7d\x7d".toList ⟨0, 23⟩,
            .textAttribute "title".toList "B & C".toList false ⟨26, 43⟩] ∧
      Expression.keys "\x7b\x7b 'a.b' | transloco \x7d\x7d<p title=\"B &amp; C\"></p>".toList
        = ["a.b".toList] ∧
      SameInline Checker.keysAt
        "\x7b\x7b 'a.b' | transloco \x7d\x7d<p title=\"B &amp; C\"></p>".toList := by
  have htitle : (titleOf "B &amp; C".toList (by decide)).IsInertDecoded := by
    refine ⟨isInert_titleOf _ (by simp) (by decide +kernel), ?_⟩
    intro offset name value span hitem
    have hdecoded : (titleOf "B &amp; C".toList (by decide)).item? offset
        = some (.textAttribute "title".toList (decodeEntities "B &amp; C".toList) false
            ⟨offset + 1, offset + 18⟩) := rfl
    rw [hdecoded] at hitem
    cases hitem
    decide +kernel
  have hrender : render (boundThenTag " 'a.b' | transloco ".toList (by decide +kernel) (by decide)
        (titleOf "B &amp; C".toList (by decide)))
      = "\x7b\x7b 'a.b' | transloco \x7d\x7d<p title=\"B &amp; C\"></p>".toList := by
    decide +kernel
  refine ⟨by decide +kernel, by decide +kernel, ?_⟩
  rw [← hrender]
  exact (inline_template_checked_alike (isSimple_boundThenTag htitle) ⟨_, List.mem_cons_self, rfl⟩
    (by decide +kernel)).1

/-- A reference in an attribute may stand for a letter of the pipe's name. -/
theorem not_sameInline_of_inert :
    ¬ ∀ pieces : List Piece, (∀ piece ∈ pieces, piece.IsSimple AttributePiece.IsInert) →
      (∃ i, .region (.inline i) ∈ pieces ∧ i.isInterpolation = true) →
      ¬ "read".toList <:+: render pieces → SameInline Checker.keysAt (render pieces) := by
  intro hall
  have htitle : (titleOf "'a.b' | &#116;ransloco".toList (by decide)).IsInert :=
    isInert_titleOf _ (by simp) (by decide +kernel)
  have hrender : render (boundThenTag " 1 ".toList (by decide +kernel) (by decide)
        (titleOf "'a.b' | &#116;ransloco".toList (by decide)))
      = "\x7b\x7b 1 \x7d\x7d<p title=\"'a.b' | &#116;ransloco\"></p>".toList := by
    decide +kernel
  have hsame : SameInline Checker.keysAt
      "\x7b\x7b 1 \x7d\x7d<p title=\"'a.b' | &#116;ransloco\"></p>".toList := by
    rw [← hrender]
    exact hall _ (isSimple_boundThenTag htitle) ⟨_, List.mem_cons_self, rfl⟩ (by decide +kernel)
  have hitems : items "\x7b\x7b 1 \x7d\x7d<p title=\"'a.b' | &#116;ransloco\"></p>".toList
      = .ok [.boundText "\x7b\x7b 1 \x7d\x7d".toList ⟨0, 7⟩,
          .textAttribute "title".toList "'a.b' | transloco".toList false ⟨10, 40⟩] := by
    decide +kernel
  have hkeys := (sameInline_keysAt_iff hitems).mp hsame
  revert hkeys
  decide +kernel

end

end KeyLint
