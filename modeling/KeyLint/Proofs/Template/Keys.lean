import KeyLint.Proofs.Expression.Interpolations
import KeyLint.Proofs.Template.References
import KeyLint.Proofs.Template.RoundTrip

/-!
# Keys of a template's items

An item is looked into for keys only if it mentions the translation pipe. In a template that is
written from texts, interpolations and tags, and whose attributes do not mention the pipe, the keys
of the items are those of its interpolations, one after the other.
-/

namespace KeyLint.Template

open Expression

/-! ## Items that are looked into -/

/-- The text in an item that is looked into for keys, if the item mentions the translation pipe. -/
def Item.searched? : Item → Option Text
  | .text value _ => if textMentions value then some value else none
  | .textAttribute name value _ _ =>
    if attributeMentions name value then some value else none
  | .boundAttribute _ source _ | .boundText source _ =>
    if sourceMentions source then some source else none

def Item.keys (item : Item) : List Text :=
  item.searched?.toList.flatMap Expression.keys

/-! ## Attributes that are not looked into -/

/-- The name of the translation pipe occurs in a text, in any case of its letters. -/
def MentionsPipe (t : Text) : Prop :=
  translationPipe <:+: Text.small t

instance (t : Text) : Decidable (MentionsPipe t) :=
  inferInstanceAs (Decidable (_ <:+: _))

theorem mentionsPipe_of_occurs {t : Text} (h : translationPipe <:+: t) : MentionsPipe t := by
  obtain ⟨s, u, rfl⟩ := h
  refine ⟨Text.small s, Text.small u, ?_⟩
  have hname : Text.small translationPipe = translationPipe := by decide
  calc Text.small s ++ translationPipe ++ Text.small u
      = Text.small s ++ Text.small translationPipe ++ Text.small u := by rw [hname]
    _ = Text.small (s ++ translationPipe ++ u) := by simp only [Text.small, List.flatMap_append]

/-- An attribute without braces that does not mention the translation pipe as it is written. -/
structure AttributePiece.IsInert (a : AttributePiece) : Prop where
  name_free : ∀ c ∈ a.name, c ≠ '\x7b' ∧ c ≠ '\x7d'
  value_free : ∀ c ∈ a.valueText, c ≠ '\x7b' ∧ c ≠ '\x7d'
  name : ¬ MentionsPipe a.name
  value : ¬ MentionsPipe a.valueText

/-- An attribute as before that does not mention the pipe either if it is a plain one and the
character references in its value are decoded. -/
structure AttributePiece.IsInertDecoded (a : AttributePiece) : Prop extends a.IsInert where
  decoded : ∀ offset name value span,
    a.item? offset = some (.textAttribute name value false span) → ¬ MentionsPipe value

theorem Item.keys_boundAttribute {source : Text} (h : ¬ MentionsPipe source) (name : Text)
    (span : Span) : (Item.boundAttribute name source span).keys = [] := by
  have hgate : sourceMentions source = false :=
    eq_false_of_ne_true fun hyes => h (mentionsPipe_of_occurs (Text.occursIn_iff_infix.mp hyes))
  simp [Item.keys, Item.searched?, hgate]

theorem Item.keys_textAttribute {name value : Text} (hname : name ≠ translationPipe)
    (hvalue : ¬ MentionsPipe value) (structural : Bool) (span : Span) :
    (Item.textAttribute name value structural span).keys = [] := by
  have hgate : attributeMentions name value = false := by
    rw [attributeMentions, Bool.or_eq_false_iff]
    exact ⟨decide_eq_false hname, eq_false_of_ne_true fun hyes =>
      hvalue (Text.occursIn_iff_infix.mp hyes)⟩
  simp [Item.keys, Item.searched?, hgate]

theorem AttributePiece.IsInertDecoded.keys_eq_nil {a : AttributePiece} (h : a.IsInertDecoded)
    {offset : Nat} {item : Item} (hitem : a.item? offset = some item) : item.keys = [] := by
  have hname : a.name ≠ translationPipe :=
    fun heq => h.name (mentionsPipe_of_occurs (heq ▸ List.infix_rfl))
  have hplain := h.decoded offset
  rw [hitem] at hplain
  obtain ⟨form, hform⟩ := exists_hasForm a.name
  rw [item?, classify?_of_hasForm hform] at hitem
  -- Only the value of a plain name is decoded; all others are looked at as they are written.
  cases form with
  | bound inner =>
      cases hitem
      exact Item.keys_boundAttribute h.value _ _
  | skipped => cases hitem
  | structural inner =>
      cases hitem
      have hinner := hform.eq_of_structural
      refine Item.keys_textAttribute ?_ h.value true _
      rintro rfl
      exact h.name (mentionsPipe_of_occurs (hinner ▸ (List.suffix_cons _ _).isInfix))
  | plain =>
      rw [NameForm.item?] at hitem
      split at hitem
      · cases hitem
        exact Item.keys_boundAttribute h.value _ _
      · cases hitem
        exact Item.keys_textAttribute hname (hplain _ _ _ rfl) false _

theorem AttributePiece.flatMap_keys_items {attributes : List AttributePiece}
    (h : ∀ a ∈ attributes, a.IsInertDecoded) (offset : Nat) :
    (items offset attributes).flatMap Item.keys = [] := by
  induction attributes generalizing offset with
  | nil => rfl
  | cons a attributes ih =>
      obtain ⟨ha, hattributes⟩ := List.forall_mem_cons.mp h
      rw [items, List.flatMap_append, ih hattributes, List.append_nil, List.flatMap_eq_nil_iff]
      exact fun item hitem => ha.keys_eq_nil (Option.mem_toList.mp hitem)

/-! ## Interpolations of pieces -/

def Inline.units : Inline → List Text
  | text _ _ _ => []
  | interpolation e _ _ => [e]

def Piece.units : Piece → List Text
  | .region (.inline i) => i.units
  | .region (.divider _) | .markup _ => []

def Run.units (run : Run) : List Text :=
  run.pieces.flatMap Inline.units

/-- An interpolation, or a text in which there is nothing to decode and nothing to pipe. -/
def Inline.IsSimple : Inline → Prop
  | text t _ _ => '&' ∉ t ∧ '|' ∉ t
  | interpolation _ _ _ => True

/-- A piece of a template without control flow, comments and raw elements, whose attributes satisfy
`p`. -/
def Piece.IsSimple (p : AttributePiece → Prop) : Piece → Prop
  | .region (.inline i) => i.IsSimple
  | .markup (.endTag t _) => ∀ c ∈ t, c ≠ '\x7b' ∧ c ≠ '\x7d'
  | .markup (.startTag tag _ _) => ∀ a ∈ tag.attributes, p a
  | _ => False

theorem Inline.units_eq_nil_iff (i : Inline) : i.units = [] ↔ i.isInterpolation = false := by
  cases i with
  | text => simp [units, isInterpolation]
  | interpolation => simp [units, isInterpolation]

theorem Run.units_eq_nil_iff (run : Run) :
    run.units = [] ↔ run.pieces.any Inline.isInterpolation = false := by
  simp [units, Inline.units_eq_nil_iff]

theorem Inline.interpolations_append (i : Inline) (t : Text) :
    interpolations (i.render ++ t) = i.units ++ interpolations t := by
  cases i with
  | text s hne hplain =>
      exact interpolations_append_left (fun hmem => (hplain _ hmem).2.1 rfl) t
  | interpolation e hfree hlast =>
      simpa [render, units] using interpolations_interpolation hfree hlast t

theorem Run.interpolations_text (run : Run) : interpolations run.text = run.units :=
  interpolations_flatMap fun i _ t => i.interpolations_append t

theorem ne_brace_of_isAsciiBlank {c : Char} (h : Text.isAsciiBlank c = true) : c ≠ '\x7b' := by
  rintro rfl
  cases h

theorem AttributePiece.IsInert.not_mem_render {a : AttributePiece} (h : a.IsInert) :
    '\x7b' ∉ a.render := by
  have hblanks : '\x7b' ∉ a.blanks := fun hmem => ne_brace_of_isAsciiBlank (a.blank _ hmem) rfl
  have hname : '\x7b' ∉ a.name := fun hmem => (h.name_free _ hmem).1 rfl
  have hassignment : '\x7b' ∉ a.assignment := by
    have hvalue := h.value_free
    unfold valueText at hvalue
    unfold assignment
    cases hv : a.value with
    | none => exact List.not_mem_nil
    | some v =>
        rw [hv] at hvalue
        have hfree : '\x7b' ∉ v.text := fun hmem => (hvalue _ hmem).1 rfl
        rcases v.isQuote with hq | hq <;> simp [hq, hfree]
  simp [render, hblanks, hname, hassignment]

theorem Tag.not_mem_render {tag : Tag} (h : ∀ a ∈ tag.attributes, a.IsInert) :
    '\x7b' ∉ tag.render := by
  have hname : '\x7b' ∉ tag.fullName := fun hmem => by
    cases tag.isTagNameChar_of_mem_fullName hmem
  have hattributes : '\x7b' ∉ tag.attributes.flatMap AttributePiece.render := by
    rw [List.mem_flatMap]
    rintro ⟨a, ha, hmem⟩
    exact (h a ha).not_mem_render hmem
  have hblanks : '\x7b' ∉ tag.blanks := fun hmem => ne_brace_of_isAsciiBlank (tag.blank _ hmem) rfl
  simp only [render, List.mem_cons, List.mem_append]
  simp [hname, hattributes, hblanks]

theorem Piece.IsSimple.interpolations_append {piece : Piece}
    (h : piece.IsSimple AttributePiece.IsInertDecoded) (t : Text) :
    interpolations (piece.render ++ t) = piece.units ++ interpolations t := by
  cases piece with
  | region r =>
      cases r with
      | inline i => exact i.interpolations_append t
      | divider d => cases h
  | markup m =>
      cases m with
      | endTag x hx =>
          have hfree : '\x7b' ∉ x := fun hin => (h _ hin).1 rfl
          refine interpolations_append_left ?_ t
          simp [Piece.render, Markup.render, hfree]
      | startTag tag selfClosing hraw =>
          have hfree := tag.not_mem_render fun a ha => (h a ha).toIsInert
          refine interpolations_append_left ?_ t
          cases selfClosing <;> simp [Piece.render, Markup.render, tagEnd, hfree]
      | comment | declaration | rawElement => cases h

/-! ## Keys of pieces -/

theorem Item.keys_text {value : Text} (h : '|' ∉ value) (span : Span) :
    (Item.text value span).keys = [] := by
  have hgate : textMentions value = false := by
    rw [textMentions, Bool.or_eq_false_iff]
    constructor
    · exact eq_false_of_ne_true fun hyes =>
        h ((Text.occursIn_iff_infix.mp hyes).subset List.mem_cons_self)
    · exact eq_false_of_ne_true fun hyes =>
        h ((Text.occursIn_iff_infix.mp hyes).subset List.mem_cons_self)
  simp [Item.keys, Item.searched?, hgate]

/-- The mention gate of a bound text keeps all its keys. -/
theorem Item.keys_boundText {source : Text} (hread : ¬ "read".toList <:+: source) (span : Span) :
    (Item.boundText source span).keys = Expression.keys source := by
  by_cases hgate : sourceMentions source = true
  · simp [Item.keys, Item.searched?, hgate]
  · rw [Expression.keys_eq_nil (eq_false_of_ne_true hgate) hread]
    simp [Item.keys, Item.searched?, hgate]

theorem Run.not_mem_text (run : Run) (hrun : ∀ i ∈ run.pieces, i.IsSimple)
    (hnone : run.units = []) : '&' ∉ run.text ∧ '|' ∉ run.text := by
  have hpiece : ∀ i ∈ run.pieces, '&' ∉ i.render ∧ '|' ∉ i.render := by
    intro i hi
    have hi' := List.flatMap_eq_nil_iff.mp hnone i hi
    cases i with
    | text => exact hrun _ hi
    | interpolation => cases hi'
  simp only [text, List.mem_flatMap, not_exists, not_and]
  exact ⟨fun i hi => (hpiece i hi).1, fun i hi => (hpiece i hi).2⟩

theorem Run.flatMap_keys_items {run : Run} (hrun : ∀ i ∈ run.pieces, i.IsSimple)
    (hread : ¬ "read".toList <:+: run.text) :
    run.items.flatMap Item.keys = run.units.flatMap pipedKeys := by
  have hunits : interpolations (Text.trim run.text) = run.units := by
    rw [interpolations_trim, run.interpolations_text]
  have htrim : Text.trim run.text <:+: run.text := by
    obtain ⟨rest, htext, _⟩ := Text.eq_append_trim run.text
    exact ⟨_, rest, htext.symm⟩
  unfold items
  simp only
  split
  · next hnil =>
      rw [hnil, interpolations_eq] at hunits
      rw [← hunits]
      rfl
  · split
    · next hbound =>
        have hreadTrim : ¬ "read".toList <:+: Text.trim run.text :=
          fun hin => hread (hin.trans htrim)
        have hne : interpolations (Text.trim run.text) ≠ [] := by
          rw [hunits, Ne, run.units_eq_nil_iff, hbound]
          simp
        rw [List.flatMap_singleton, Item.keys_boundText hreadTrim,
          keys_of_interpolations hne hreadTrim, hunits]
    · next hplain =>
        have hnone := run.units_eq_nil_iff.mpr (eq_false_of_ne_true hplain)
        have hfree := run.not_mem_text hrun hnone
        have hreference : '&' ∉ Text.trim run.text := fun hmem => hfree.1 (htrim.subset hmem)
        have hbar : '|' ∉ Text.trim run.text := fun hmem => hfree.2 (htrim.subset hmem)
        rw [List.flatMap_singleton, decodeEntities_of_not_mem hreference, Item.keys_text hbar,
          hnone]
        rfl

theorem Markup.flatMap_keys_items {m : Markup}
    (h : Piece.IsSimple AttributePiece.IsInertDecoded (.markup m)) (offset : Nat) :
    (m.items offset).flatMap Item.keys = [] := by
  cases m with
  | comment | declaration | endTag => rfl
  | startTag tag => exact AttributePiece.flatMap_keys_items h _
  | rawElement => cases h

/-- The run that the reader is in and the pieces after it give the keys of their interpolations. -/
theorem flatMap_keys_itemsAfter {pieces : List Piece}
    (hpieces : ∀ piece ∈ pieces, piece.IsSimple AttributePiece.IsInertDecoded) (run : Run)
    (hrun : ∀ i ∈ run.pieces, i.IsSimple) (hread : ¬ "read".toList <:+: run.text ++ render pieces) :
    (itemsAfter run pieces).flatMap Item.keys
      = (run.units ++ pieces.flatMap Piece.units).flatMap pipedKeys := by
  induction pieces generalizing run with
  | nil =>
      rw [itemsAfter, List.flatMap_nil, List.append_nil]
      exact Run.flatMap_keys_items hrun (by simpa [render] using hread)
  | cons piece pieces ih =>
      obtain ⟨hpiece, hrest⟩ := List.forall_mem_cons.mp hpieces
      cases piece with
      | region r =>
          cases r with
          | inline i =>
              have hadd : ∀ j ∈ (run.add i).pieces, j.IsSimple :=
                List.forall_mem_append.mpr ⟨hrun, List.forall_mem_singleton.mpr hpiece⟩
              have hunits : (run.add i).units = run.units ++ i.units := by
                simp [Run.add, Run.units]
              have htext : (run.add i).text ++ render pieces
                  = run.text ++ render (.region (.inline i) :: pieces) := by
                simp [Run.add, Run.text, render, Piece.render, RegionPiece.render]
              rw [itemsAfter, ih hrest (run.add i) hadd (htext ▸ hread), hunits, List.append_assoc]
              rfl
          | divider d => cases hpiece
      | markup m =>
          have hrunRead : ¬ "read".toList <:+: run.text :=
            fun hin => hread (hin.trans (List.prefix_append _ _).isInfix)
          have hnext : ¬ "read".toList <:+:
              Run.text { start := run.stop + Text.bytes m.render } ++ render pieces := by
            refine fun hin => hread (hin.trans ?_)
            exact ⟨run.text ++ m.render, [], by simp [Run.text, render, Piece.render]⟩
          rw [itemsAfter, List.flatMap_append, List.flatMap_append,
            Run.flatMap_keys_items hrun hrunRead, Markup.flatMap_keys_items hpiece,
            ih hrest _ (by simp) hnext]
          simp [Run.units, Piece.units]

end KeyLint.Template
