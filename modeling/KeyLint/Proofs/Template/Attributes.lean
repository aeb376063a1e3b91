import KeyLint.Proofs.Text
import KeyLint.Template.Attribute

/-!
# What the name of an attribute says

A name binds its attribute if it is in brackets, with or without parentheses inside, or after `bind-`.
Other beginnings leave the attribute out, and a star makes it structural. All other names are plain,
and the value tells whether the attribute is bound. Every name has one of these forms, and with it the
item of the attribute is known.
-/

namespace KeyLint.Template

/-! ## Forms of names -/

/-- What the name of an attribute says about it. -/
inductive NameForm where
  /-- The attribute is bound to an expression. -/
  | bound (name : Text)
  /-- The attribute gives no item. -/
  | skipped
  | structural (name : Text)
  | plain
deriving DecidableEq

/-- The names of a form. Brackets around parentheses are both left out, and a plain name is not
spelled in any of the other ways. -/
inductive HasForm : Text → NameForm → Prop
  | twoWay (inner : Text) : HasForm ("[(".toList ++ (inner ++ ")]".toList)) (.bound inner)
  | property {inner : Text} (h : ∀ n, inner ≠ "(".toList ++ (n ++ ")".toList)) :
      HasForm ("[".toList ++ (inner ++ "]".toList)) (.bound inner)
  | bind (inner : Text) : HasForm ("bind-".toList ++ inner) (.bound inner)
  | skipped {start : Text} (h : start ∈ skippedStarts) (rest : Text) :
      HasForm (start ++ rest) .skipped
  | structural (inner : Text) : HasForm ('*' :: inner) (.structural inner)
  | plain {name : Text} (hbrackets : ∀ inner, name ≠ "[".toList ++ (inner ++ "]".toList))
      (hstarts : ∀ start ∈ "bind-".toList :: "*".toList :: skippedStarts, ¬ start <+: name) :
      HasForm name .plain

theorem HasForm.eq_of_structural {name inner : Text} (h : HasForm name (.structural inner)) :
    name = '*' :: inner := by
  cases h
  rfl

/-- The item of an attribute whose name has a form. The value of a plain one is bound if there is an
interpolation in it, and decoded otherwise. -/
def NameForm.item? (name value : Text) (span : Span) : NameForm → Option Item
  | bound inner => some (.boundAttribute (boundName inner) value span)
  | skipped => none
  | structural inner => some (.textAttribute inner value true span)
  | plain =>
    if Text.occursIn "\x7b\x7b".toList value then
      some (.boundAttribute (boundName name) value span)
    else some (.textAttribute name (decodeEntities value) false span)

/-! ## Names in brackets -/

theorem between?_eq_some_iff {opening closing name inner : Text} :
    between? opening closing name = some inner ↔ name = opening ++ (inner ++ closing) := by
  rw [between?, Option.bind_eq_some_iff]
  constructor
  · rintro ⟨rest, hafter, hbefore⟩
    rw [Text.eq_append_of_after?_eq_some hafter, Text.eq_append_of_before?_eq_some hbefore]
  · rintro rfl
    exact ⟨_, Text.after?_append _ _, Text.before?_append _ _⟩

theorem between?_eq_none_iff {opening closing name : Text} :
    between? opening closing name = none ↔ ∀ inner, name ≠ opening ++ (inner ++ closing) := by
  simp only [Option.eq_none_iff_forall_ne_some, ne_eq, between?_eq_some_iff]

theorem bindingName?_twoWay (inner : Text) :
    bindingName? ("[(".toList ++ (inner ++ ")]".toList)) = some inner := by
  rw [bindingName?, between?_eq_some_iff.mpr rfl]
  rfl

theorem bindingName?_property {inner : Text} (h : ∀ n, inner ≠ "(".toList ++ (n ++ ")".toList)) :
    bindingName? ("[".toList ++ (inner ++ "]".toList)) = some inner := by
  have hparens : between? "[(".toList ")]".toList ("[".toList ++ (inner ++ "]".toList)) = none := by
    refine between?_eq_none_iff.mpr fun n heq => h n ?_
    have hinner : inner ++ "]".toList = "(".toList ++ (n ++ ")".toList) ++ "]".toList := by
      simpa using heq
    exact List.append_cancel_right hinner
  rw [bindingName?, hparens, between?_eq_some_iff.mpr rfl]
  rfl

theorem bindingName?_eq_none {name : Text}
    (hbrackets : ∀ inner, name ≠ "[".toList ++ (inner ++ "]".toList))
    (hbind : ¬ "bind-".toList <+: name) : bindingName? name = none := by
  have hparens : between? "[(".toList ")]".toList name = none :=
    between?_eq_none_iff.mpr fun inner heq =>
      hbrackets ("(".toList ++ (inner ++ ")".toList)) (by simpa using heq)
  rw [bindingName?, hparens, between?_eq_none_iff.mpr hbrackets, Text.after?_eq_none_iff.mpr hbind]
  rfl

/-! ## The item of an attribute -/

theorem classify?_of_bindingName? {name inner : Text} (h : bindingName? name = some inner)
    (value : Text) (span : Span) :
    classify? name value span = some (.boundAttribute (boundName inner) value span) := by
  unfold classify?
  rw [h]

theorem classify?_skipped {start : Text} (h : start ∈ skippedStarts) (rest value : Text)
    (span : Span) : classify? (start ++ rest) value span = none := by
  have hbinding : bindingName? (start ++ rest) = none := by
    simp only [skippedStarts, List.mem_cons, List.not_mem_nil, or_false] at h
    rcases h with rfl | rfl | rfl | rfl | rfl | rfl | rfl <;> rfl
  have hskipped : skippedStarts.any fun start' => start'.isPrefixOf (start ++ rest) :=
    List.any_eq_true.mpr ⟨start, h, List.isPrefixOf_iff_prefix.mpr (List.prefix_append start rest)⟩
  unfold classify?
  rw [hbinding]
  exact if_pos hskipped

theorem classify?_plain {name : Text}
    (hbrackets : ∀ inner, name ≠ "[".toList ++ (inner ++ "]".toList))
    (hstarts : ∀ start ∈ "bind-".toList :: "*".toList :: skippedStarts, ¬ start <+: name)
    (value : Text) (span : Span) :
    classify? name value span = NameForm.plain.item? name value span := by
  simp only [List.forall_mem_cons] at hstarts
  obtain ⟨hbind, hstar, hskipped⟩ := hstarts
  have hany : (skippedStarts.any fun start => start.isPrefixOf name) = false :=
    List.any_eq_false.mpr fun start hmem hpre =>
      hskipped start hmem (List.isPrefixOf_iff_prefix.mp hpre)
  unfold classify?
  rw [bindingName?_eq_none hbrackets hbind]
  simp only [hany, Bool.false_eq_true, if_false, NameForm.item?]
  split
  · exact absurd (List.prefix_append _ _) hstar
  · rfl

/-- An attribute gives the item that the form of its name says. -/
theorem classify?_of_hasForm {name : Text} {form : NameForm} (h : HasForm name form) (value : Text)
    (span : Span) : classify? name value span = form.item? name value span := by
  cases h with
  | twoWay inner => exact classify?_of_bindingName? (bindingName?_twoWay inner) value span
  | property h => exact classify?_of_bindingName? (bindingName?_property h) value span
  | bind inner => rfl
  | skipped h rest => exact classify?_skipped h rest value span
  | structural inner => rfl
  | plain hbrackets hstarts => exact classify?_plain hbrackets hstarts value span

/-- Every name has a form. -/
theorem exists_hasForm (name : Text) : ∃ form, HasForm name form := by
  by_cases hbrackets : ∃ inner, name = "[".toList ++ (inner ++ "]".toList)
  · obtain ⟨inner, rfl⟩ := hbrackets
    by_cases hparens : ∃ n, inner = "(".toList ++ (n ++ ")".toList)
    · obtain ⟨n, rfl⟩ := hparens
      exact ⟨_, by simpa using HasForm.twoWay n⟩
    · exact ⟨_, .property fun n heq => hparens ⟨n, heq⟩⟩
  by_cases hstarts : ∃ start ∈ "bind-".toList :: "*".toList :: skippedStarts, start <+: name
  · obtain ⟨start, hmem, rest, rfl⟩ := hstarts
    rcases List.mem_cons.mp hmem with rfl | hmem
    · exact ⟨_, .bind rest⟩
    rcases List.mem_cons.mp hmem with rfl | hmem
    · exact ⟨_, .structural rest⟩
    · exact ⟨_, .skipped hmem rest⟩
  · exact ⟨_, .plain (fun inner heq => hbrackets ⟨inner, heq⟩)
      fun start hmem hpre => hstarts ⟨start, hmem, hpre⟩⟩

end KeyLint.Template
