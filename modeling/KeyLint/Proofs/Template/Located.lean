import KeyLint.Proofs.Text
import KeyLint.Template.Reader

/-!
# Where the items of a template stand

`Located offset t items` says that the items stand in the text `t`, which begins at `offset`, one
after the other and apart from each other, and that each of them is what is written at its span.
-/

namespace KeyLint.Template

/-! ## What is written at an item -/

/-- An attribute as it stands in a tag: its name alone, or with an equals sign and a value that is
quoted or not. -/
inductive WrittenAttribute (name : Text) : (value written : Text) → Prop
  | alone : WrittenAttribute name [] name
  | quoted {blanks moreBlanks value : Text} {quote : Char}
      (hblanks : ∀ c ∈ blanks, Text.isAsciiBlank c = true)
      (hmore : ∀ c ∈ moreBlanks, Text.isAsciiBlank c = true)
      (hquote : quote = '"' ∨ quote = '\'') (hfree : quote ∉ value) :
      WrittenAttribute name value
        (name ++ (blanks ++ '=' :: (moreBlanks ++ quote :: (value ++ [quote]))))
  | unquoted {blanks moreBlanks value : Text}
      (hblanks : ∀ c ∈ blanks, Text.isAsciiBlank c = true)
      (hmore : ∀ c ∈ moreBlanks, Text.isAsciiBlank c = true)
      (hstart : ∀ c ∈ value.head?, c ≠ '"' ∧ c ≠ '\'')
      (hvalue : ∀ c ∈ value, Text.isAsciiBlank c = false ∧ c ≠ '>') :
      WrittenAttribute name value (name ++ (blanks ++ '=' :: (moreBlanks ++ value)))

/-- A name that can be read as that of an attribute. -/
def IsAttributeName (name : Text) : Prop :=
  name ≠ [] ∧ ∀ c ∈ name, c ≠ '=' ∧ c ≠ '>' ∧ c ≠ '"' ∧ c ≠ '\'' ∧ Text.isAsciiBlank c = false

/-- An item is what is written at its span: a text is decoded from it, a bound text is it, and an
attribute is classified by its name and value in it. -/
def Item.IsWritten (item : Item) (written : Text) : Prop :=
  match item with
  | .text value _ =>
    value = decodeEntities written ∧ (∀ c ∈ written.head?, Text.isBlank c = false)
      ∧ ∀ c ∈ written.getLast?, Text.isBlank c = false
  | .boundText source _ => source = written
  | .textAttribute .. | .boundAttribute .. =>
    ∃ name value, IsAttributeName name ∧ WrittenAttribute name value written
      ∧ classify? name value item.span = some item

/-! ## Items in a text -/

/-- The items stand in a text that begins at an offset, in order and apart from each other. -/
inductive Located : (offset : Nat) → Text → List Item → Prop
  | nil {offset : Nat} {t : Text} : Located offset t []
  | cons {offset : Nat} {before written after : Text} {item : Item} {items : List Item}
      (hne : written ≠ [])
      (hspan : item.span
        = ⟨offset + Text.bytes before, offset + Text.bytes before + Text.bytes written⟩)
      (hwritten : item.IsWritten written)
      (hafter : Located (offset + Text.bytes before + Text.bytes written) after items) :
      Located offset (before ++ written ++ after) (item :: items)

namespace Located

variable {offset : Nat} {s t : Text} {items : List Item}

theorem skip (s : Text) (h : Located (offset + Text.bytes s) t items) :
    Located offset (s ++ t) items := by
  cases h with
  | nil => exact .nil
  | @cons _ before written after item items hne hspan hwritten hafter =>
      have heq : offset + Text.bytes (s ++ before) = offset + Text.bytes s + Text.bytes before := by
        rw [Text.bytes_append, Nat.add_assoc]
      rw [List.append_assoc, ← List.append_assoc s before, ← List.append_assoc]
      exact .cons hne (by rw [heq]; exact hspan) hwritten (by rw [heq]; exact hafter)

theorem append {more : List Item} (hs : Located offset s items)
    (ht : Located (offset + Text.bytes s) t more) : Located offset (s ++ t) (items ++ more) := by
  induction hs with
  | nil => exact ht.skip _
  | @cons offset before written after item items hne hspan hwritten _ ih =>
      rw [List.append_assoc]
      refine .cons hne hspan hwritten (ih ?_)
      have heq : offset + Text.bytes before + Text.bytes written + Text.bytes after
          = offset + Text.bytes (before ++ written ++ after) := by
        simp only [Text.bytes_append]
        omega
      rwa [heq]

theorem single {before written : Text} {item : Item} (after : Text) (hne : written ≠ [])
    (hspan : item.span
      = ⟨offset + Text.bytes before, offset + Text.bytes before + Text.bytes written⟩)
    (hwritten : item.IsWritten written) : Located offset (before ++ written ++ after) [item] :=
  .cons hne hspan hwritten .nil

theorem span_bounds (h : Located offset t items) : ∀ item ∈ items,
    offset ≤ item.span.start ∧ item.span.start < item.span.stop ∧
      item.span.stop ≤ offset + Text.bytes t := by
  induction h with
  | nil => simp
  | @cons offset before written after item items hne hspan _ _ ih =>
      have hpos := Text.bytes_pos_of_ne_nil hne
      simp only [Text.bytes_append]
      intro x hx
      rcases List.mem_cons.mp hx with rfl | hx
      · rw [hspan]
        simp only
        omega
      · have hbounds := ih x hx
        omega

theorem pairwise (h : Located offset t items) :
    items.Pairwise fun a b => a.span.stop ≤ b.span.start := by
  induction h with
  | nil => exact .nil
  | @cons offset before written after item items _ hspan _ hafter ih =>
      refine List.pairwise_cons.mpr ⟨?_, ih⟩
      intro x hx
      rw [hspan]
      exact (hafter.span_bounds x hx).1

theorem isWritten_slice (h : Located offset t items) (hs : Text.bytes s = offset) :
    ∀ item ∈ items, ∃ written, Text.slice? (s ++ t) item.span = some written ∧
      item.IsWritten written := by
  induction h generalizing s with
  | nil => simp
  | @cons offset before written after item items _ hspan hwritten _ ih =>
      intro x hx
      rcases List.mem_cons.mp hx with rfl | hx
      · refine ⟨written, ?_, hwritten⟩
        rw [hspan, ← hs, ← Text.bytes_append, List.append_assoc before, ← List.append_assoc s,
          ← List.append_assoc]
        exact Text.slice?_append _ _ _
      · rw [← List.append_assoc]
        refine ih ?_ x hx
        simp only [Text.bytes_append]
        omega

theorem exists_written (h : Located offset t items) : ∀ item ∈ items,
    ∃ before written after, t = before ++ written ++ after ∧
      item.span.start = offset + Text.bytes before ∧ written ≠ [] ∧ item.IsWritten written := by
  induction h with
  | nil => simp
  | @cons offset before written after item items hne hspan hwritten _ ih =>
      intro x hx
      rcases List.mem_cons.mp hx with rfl | hx
      · exact ⟨before, written, after, rfl, by rw [hspan], hne, hwritten⟩
      · obtain ⟨s, w, t, rfl, hstart, hw, hx⟩ := ih x hx
        refine ⟨before ++ written ++ s, w, t, by simp, ?_, hw, hx⟩
        rw [hstart]
        simp only [Text.bytes_append]
        omega

end Located

end KeyLint.Template
