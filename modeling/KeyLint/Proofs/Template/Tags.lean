import KeyLint.Proofs.Template.Regions

/-!
# Markup written from pieces

Each piece of markup is read up to its end, and a start tag gives its attributes at their places.
-/

namespace KeyLint.Template

/-! ## Attributes -/

theorem readName_append {name rest : Text} (hname : ∀ c ∈ name, endsName c = false ∧ c ≠ '/')
    (hrest : readName rest = ([], rest)) : readName (name ++ rest) = (name, rest) := by
  induction name with
  | nil => exact hrest
  | cons c name ih =>
      obtain ⟨hends, hslash⟩ := hname c List.mem_cons_self
      rw [List.cons_append, readName, ih fun x hx => hname x (List.mem_cons_of_mem c hx)]
      simp [hends, hslash]

/-- A text that ends an attribute without a value. -/
def EndsAttribute (t : Text) : Prop :=
  readName t = ([], t) ∧ (t.dropWhile Text.isAsciiBlank).head? ≠ some '='

theorem readName_eq_nil {c : Char} {t : Text} (h : endsName c = true) :
    readName (c :: t) = ([], c :: t) := by
  simp [readName, h]

theorem readValue?_quoted (v : QuotedValue) (rest : Text) :
    readValue? (v.quote :: (v.text ++ v.quote :: rest))
      = some (⟨v.text, v.quote :: (v.text ++ [v.quote])⟩, rest) := by
  obtain ⟨quote, text, hquote, hfree⟩ := v
  have hcut : Text.cut? [quote] (text ++ quote :: rest) = some (text, rest) := by
    refine (Text.cut?_eq_some_iff (by simp)).mpr ⟨by simp, ?_⟩
    exact fun hin => hfree (by simpa using hin.subset List.mem_cons_self)
  rcases hquote with rfl | rfl
  · simp [readValue?, hcut]
  · simp [readValue?, hcut]

namespace AttributePiece

variable (a : AttributePiece)

theorem endsName_of_mem_name {c : Char} (hc : c ∈ a.name) : endsName c = false ∧ c ≠ '/' := by
  obtain ⟨hblank, heq, hend, hdouble, hsingle, hslash⟩ := a.isName c hc
  exact ⟨by simp [endsName, hblank, heq, hend, hdouble, hsingle], hslash⟩

theorem readAssignment?_append {rest : Text} (hrest : EndsAttribute rest) :
    readAssignment? (a.assignment ++ rest)
      = some (a.valueText, Text.bytes a.assignment, rest) := by
  cases hvalue : a.value with
  | none =>
      simp only [assignment, valueText, hvalue, List.nil_append, readAssignment?]
      split
      · next cs hdrop => exact absurd (by rw [hdrop]; rfl) hrest.2
      · rfl
  | some v =>
      have hquote : Text.isAsciiBlank v.quote = false := by
        rcases v.isQuote with h | h <;> rw [h] <;> rfl
      have heq : Text.isAsciiBlank '=' = false := rfl
      have hsize : '='.utf8Size = 1 := rfl
      simp [assignment, valueText, hvalue, readAssignment?, heq, hquote, readValue?_quoted, hsize]

theorem readName_append_assignment {rest : Text} (hrest : EndsAttribute rest) :
    readName (a.name ++ (a.assignment ++ rest)) = (a.name, a.assignment ++ rest) := by
  refine readName_append (fun c hc => a.endsName_of_mem_name hc) ?_
  cases hvalue : a.value with
  | none => simpa [assignment, hvalue] using hrest.1
  | some v =>
      rw [assignment, hvalue]
      exact readName_eq_nil rfl

/-- The attribute of a tag that a piece is read as. -/
def toAttribute (offset : Nat) : Attribute :=
  ⟨a.name, a.valueText, ⟨offset + Text.bytes a.blanks, offset + Text.bytes a.render⟩⟩

theorem readAttribute_append (offset : Nat) {rest : Text} (hrest : EndsAttribute rest) :
    readAttribute (offset + Text.bytes a.blanks) (a.name ++ (a.assignment ++ rest))
      = .ok (some (a.toAttribute offset), rest) := by
  have hname := a.readName_append_assignment hrest
  have hassign := a.readAssignment?_append hrest
  rw [readAttribute]
  split
  · next hnil => exact absurd (congrArg Prod.fst (hname.symm.trans hnil)) a.name_ne
  · next name tail _ hread =>
      cases hname.symm.trans hread
      simp [hassign, toAttribute, render, Nat.add_assoc]

end AttributePiece

/-! ## The body of a start tag -/

theorem readTagBody_blanks (unclosed : Error) {blanks : Text}
    (hblank : ∀ c ∈ blanks, Text.isAsciiBlank c = true) (offset : Nat) (t : Text) :
    readTagBody unclosed offset (blanks ++ t)
      = readTagBody unclosed (offset + Text.bytes blanks) t := by
  induction blanks generalizing offset with
  | nil => rfl
  | cons c blanks ih =>
      rw [List.cons_append, readTagBody, if_pos (hblank c List.mem_cons_self),
        ih fun x hx => hblank x (List.mem_cons_of_mem c hx), Text.bytes_cons, Nat.add_assoc]

theorem readTagBody_attribute {unclosed : Error} {offset : Nat} {a : AttributePiece} {rest : Text}
    {body : TagBody} (hrest : EndsAttribute rest)
    (h : readTagBody unclosed (offset + Text.bytes a.render) rest = .ok body) :
    readTagBody unclosed offset (a.render ++ rest)
      = .ok { body with attributes := a.toAttribute offset :: body.attributes } := by
  have hread := a.readAttribute_append offset hrest
  have hbytes : Text.bytes (a.name ++ (a.assignment ++ rest)) - Text.bytes rest
      = Text.bytes a.name + Text.bytes a.assignment := by
    simp only [Text.bytes_append]
    omega
  have hoffset : offset + Text.bytes a.render
      = offset + Text.bytes a.blanks + (Text.bytes a.name + Text.bytes a.assignment) := by
    simp only [AttributePiece.render, Text.bytes_append, Nat.add_assoc]
  rw [AttributePiece.render, List.append_assoc, readTagBody_blanks unclosed a.blank,
    List.append_assoc]
  obtain ⟨c, name, hname⟩ := List.exists_cons_of_ne_nil a.name_ne
  obtain ⟨hblank, heq, hend, _, _, hslash⟩ := a.isName c (by rw [hname]; exact List.mem_cons_self)
  rw [hoffset, ← hbytes] at h
  rw [hname, List.cons_append] at hread h ⊢
  rw [readTagBody, if_neg (by simp [hblank]), if_neg hend, if_neg (by simp [hslash]),
    if_neg hslash]
  split
  · next hbad =>
      rw [hread] at hbad
      cases hbad
  · next hgood =>
      rw [hread] at hgood
      cases hgood
      rw [h]
      rfl

theorem readTagBody_tagEnd (unclosed : Error) (offset : Nat) (selfClosing : Bool) (rest : Text) :
    readTagBody unclosed offset (tagEnd selfClosing ++ rest) = .ok ⟨[], selfClosing, rest⟩ := by
  cases selfClosing with
  | false => simp [tagEnd, readTagBody, Text.isAsciiBlank]
  | true => simp [tagEnd, readTagBody, Text.isAsciiBlank]

theorem endsAttribute_blanks_tagEnd {blanks : Text}
    (hblank : ∀ c ∈ blanks, Text.isAsciiBlank c = true) (selfClosing : Bool) (rest : Text) :
    EndsAttribute (blanks ++ (tagEnd selfClosing ++ rest)) := by
  constructor
  · cases blanks with
    | nil => cases selfClosing <;> simp [tagEnd, readName, endsName]
    | cons c blanks => exact readName_eq_nil (by simp [endsName, hblank c List.mem_cons_self])
  · rw [List.dropWhile_append_of_pos hblank]
    cases selfClosing <;> simp [tagEnd, Text.isAsciiBlank]

theorem endsAttribute_render (a : AttributePiece) (rest : Text) :
    EndsAttribute (a.render ++ rest) := by
  obtain ⟨b, blanks, hblanks⟩ := List.exists_cons_of_ne_nil a.blanks_ne
  obtain ⟨c, name, hname⟩ := List.exists_cons_of_ne_nil a.name_ne
  have hb := a.blank b (by rw [hblanks]; exact List.mem_cons_self)
  obtain ⟨hblank, heq, _⟩ := a.isName c (by rw [hname]; exact List.mem_cons_self)
  constructor
  · rw [AttributePiece.render, hblanks]
    exact readName_eq_nil (by simp [endsName, hb])
  · rw [AttributePiece.render, List.append_assoc, List.dropWhile_append_of_pos a.blank, hname]
    simp [hblank, heq]

/-- What a start tag has after its name. -/
def tagRest (attributes : List AttributePiece) (blanks : Text) (selfClosing : Bool) (rest : Text) :
    Text :=
  attributes.flatMap AttributePiece.render ++ (blanks ++ (tagEnd selfClosing ++ rest))

theorem tagRest_cons (a : AttributePiece) (attributes : List AttributePiece) (blanks : Text)
    (selfClosing : Bool) (rest : Text) :
    tagRest (a :: attributes) blanks selfClosing rest
      = a.render ++ tagRest attributes blanks selfClosing rest := by
  simp [tagRest]

theorem endsAttribute_tagRest (attributes : List AttributePiece) {blanks : Text}
    (hblank : ∀ c ∈ blanks, Text.isAsciiBlank c = true) (selfClosing : Bool) (rest : Text) :
    EndsAttribute (tagRest attributes blanks selfClosing rest) := by
  cases attributes with
  | nil => exact endsAttribute_blanks_tagEnd hblank selfClosing rest
  | cons a attributes =>
      rw [tagRest_cons]
      exact endsAttribute_render a _

/-- The attributes of a tag that pieces are read as, from an offset on. -/
def AttributePiece.toAttributes : Nat → List AttributePiece → List Attribute
  | _, [] => []
  | offset, a :: attributes =>
    a.toAttribute offset :: toAttributes (offset + Text.bytes a.render) attributes

theorem AttributePiece.filterMap_toAttributes (offset : Nat) (attributes : List AttributePiece) :
    (toAttributes offset attributes).filterMap Attribute.item? = items offset attributes := by
  induction attributes generalizing offset with
  | nil => rfl
  | cons a attributes ih =>
      have hitem : (a.toAttribute offset).item? = a.item? offset := rfl
      rw [toAttributes, items, ← ih, List.filterMap_cons, hitem]
      cases a.item? offset <;> rfl

theorem readTagBody_tagRest (unclosed : Error) (offset : Nat) (attributes : List AttributePiece)
    {blanks : Text} (hblank : ∀ c ∈ blanks, Text.isAsciiBlank c = true) (selfClosing : Bool)
    (rest : Text) :
    readTagBody unclosed offset (tagRest attributes blanks selfClosing rest)
      = .ok ⟨AttributePiece.toAttributes offset attributes, selfClosing, rest⟩ := by
  induction attributes generalizing offset with
  | nil =>
      rw [tagRest, List.flatMap_nil, List.nil_append, readTagBody_blanks unclosed hblank,
        readTagBody_tagEnd]
      rfl
  | cons a attributes ih =>
      rw [tagRest_cons]
      exact readTagBody_attribute (endsAttribute_tagRest attributes hblank selfClosing rest) (ih _)

/-! ## The content of a raw element -/

theorem startsIgnoringCase_iff {word t : Text} :
    startsIgnoringCase word t = true ↔ ∃ w, w <+: t ∧ w.map Text.toSmallAscii = word := by
  induction word generalizing t with
  | nil => simp [startsIgnoringCase]
  | cons letter word ih =>
      cases t with
      | nil => simp [startsIgnoringCase]
      | cons c cs =>
          simp only [startsIgnoringCase, Bool.and_eq_true, decide_eq_true_eq, ih]
          constructor
          · rintro ⟨rfl, w, hw, rfl⟩
            exact ⟨c :: w, List.cons_prefix_cons.mpr ⟨rfl, hw⟩, rfl⟩
          · rintro ⟨w, hw, hmap⟩
            cases w with
            | nil => cases hmap
            | cons d w =>
                obtain ⟨rfl, htail⟩ := List.cons_prefix_cons.mp hw
                cases hmap
                exact ⟨rfl, w, htail, rfl⟩

theorem skipTo_append {word content rest : Text} (hstart : startsIgnoringCase word rest = true)
    (hfirst : ∀ y, y ≠ [] → y <:+ content → startsIgnoringCase word (y ++ rest) = false) :
    skipTo word (content ++ rest) = rest := by
  induction content with
  | nil =>
      cases rest with
      | nil => rfl
      | cons c rest => rw [List.nil_append, skipTo, if_pos hstart]
  | cons c content ih =>
      have hc := hfirst (c :: content) (by simp) (List.suffix_refl _)
      rw [List.cons_append] at hc
      rw [List.cons_append, skipTo, if_neg (by simp [hc])]
      exact ih fun y hne hy => hfirst y hne (hy.trans (List.suffix_cons c content))

/-- A word that has a `<` only at its beginning does not begin in a text and end after a `<` that
follows the text. -/
theorem startsIgnoringCase_append_eq_false {word y : Text} (rest : Text)
    (hword : '<' ∉ word.tail) (hne : y ≠ [])
    (hfree : ∀ w, w <+: y → w.map Text.toSmallAscii ≠ word) :
    startsIgnoringCase word (y ++ '<' :: rest) = false := by
  rw [Bool.eq_false_iff, Ne, startsIgnoringCase_iff]
  rintro ⟨w, hw, hmap⟩
  rcases List.prefix_or_prefix_of_prefix hw (List.prefix_append y _) with hwy | ⟨z, hyw⟩
  · exact hfree w hwy hmap
  · subst hyw
    rw [List.prefix_append_right_inj] at hw
    cases z with
    | nil => exact hfree y (List.prefix_refl y) (by simpa using hmap)
    | cons c z =>
        obtain ⟨rfl, _⟩ := List.cons_prefix_cons.mp hw
        obtain ⟨b, y, rfl⟩ := List.exists_cons_of_ne_nil hne
        refine hword ?_
        rw [← hmap]
        exact List.mem_map.mpr ⟨'<', by simp, rfl⟩

theorem afterRawContent_of_not_raw {name : Text}
    (h : ∀ raw ∈ rawElements, Text.eqIgnoringAsciiCase raw name = false) (t : Text) :
    afterRawContent name t = t := by
  have hnone : rawElements.find? (fun raw => Text.eqIgnoringAsciiCase raw name) = none := by
    rw [List.find?_eq_none]
    intro raw hraw
    simp [h raw hraw]
  rw [afterRawContent, hnone]

theorem find?_rawElements {raw name : Text} (hraw : raw ∈ rawElements)
    (hname : Text.eqIgnoringAsciiCase raw name = true) :
    rawElements.find? (fun raw => Text.eqIgnoringAsciiCase raw name) = some raw := by
  have hname' : raw.map Text.toSmallAscii = name.map Text.toSmallAscii := by
    simpa [Text.eqIgnoringAsciiCase] using hname
  simp only [rawElements, List.mem_cons, List.not_mem_nil, or_false] at hraw
  simp only [rawElements, Text.eqIgnoringAsciiCase, ← hname']
  rcases hraw with rfl | rfl
  · rfl
  · rfl

theorem map_toSmallAscii_of_raw {raw : Text} (hraw : raw ∈ rawElements) :
    raw.map Text.toSmallAscii = raw := by
  revert raw
  decide

theorem not_mem_tail_of_raw {raw : Text} (hraw : raw ∈ rawElements) :
    '<' ∉ ("</".toList ++ raw).tail := by
  revert raw
  decide

theorem afterRawContent_append {name raw content endName : Text} (hraw : raw ∈ rawElements)
    (hname : Text.eqIgnoringAsciiCase raw name = true)
    (hcontent : ∀ w, w <:+: content → Text.eqIgnoringAsciiCase ("</".toList ++ raw) w = false)
    (hend : Text.eqIgnoringAsciiCase raw endName = true) (rest : Text) :
    afterRawContent name (content ++ ("</".toList ++ (endName ++ rest)))
      = "</".toList ++ (endName ++ rest) := by
  have hendTag :
      startsIgnoringCase ("</".toList ++ raw) ("</".toList ++ (endName ++ rest)) = true := by
    refine startsIgnoringCase_iff.mpr ⟨"</".toList ++ endName, ?_, ?_⟩
    · rw [List.prefix_append_right_inj]
      exact List.prefix_append endName rest
    · rw [List.map_append, ← of_decide_eq_true hend, map_toSmallAscii_of_raw hraw]
      rfl
  rw [afterRawContent, find?_rawElements hraw hname]
  refine skipTo_append hendTag fun y hne hy => ?_
  refine startsIgnoringCase_append_eq_false _ (not_mem_tail_of_raw hraw) hne fun w hw hmap => ?_
  have hdiffers := hcontent w (hw.isInfix.trans hy.isInfix)
  rw [Text.eqIgnoringAsciiCase, decide_eq_false_iff_not, hmap, List.map_append,
    map_toSmallAscii_of_raw hraw] at hdiffers
  exact hdiffers rfl

/-! ## Markup -/

theorem readMarkup_comment {c : Text} (hfree : ¬ "-->".toList <:+: c) (offset : Nat) (t : Text) :
    readMarkup offset ("!--".toList ++ (c ++ ("-->".toList ++ t))) = .ok ([], t) := by
  have hcut : Text.cut? "-->".toList (c ++ ("-->".toList ++ t)) = some (c, t) := by
    refine (Text.cut?_eq_some_iff (by decide)).mpr ⟨by simp, fun hin => hfree ?_⟩
    exact Text.infix_of_infix_append (w := "--".toList) hin (by decide)
  rw [readMarkup, Text.after?_append]
  simp only [hcut]

theorem readMarkup_upTo_end {s t : Text} (hcomment : ¬ "!--".toList <+: s ++ '>' :: t)
    (hhead : (s ++ '>' :: t).head? = some '!' ∨ (s ++ '>' :: t).head? = some '/') (hfree : '>' ∉ s)
    (offset : Nat) : readMarkup offset (s ++ '>' :: t) = .ok ([], t) := by
  have hcut : Text.cut? ">".toList (s ++ '>' :: t) = some (s, t) := by
    refine (Text.cut?_eq_some_iff (by decide)).mpr ⟨by simp, fun hin => hfree ?_⟩
    have hmem : '>' ∈ s ++ [] := hin.subset List.mem_cons_self
    rwa [List.append_nil] at hmem
  rw [readMarkup, Text.after?_eq_none_iff.mpr hcomment]
  simp only [Bool.or_eq_true, decide_eq_true_eq, hhead, if_true, hcut]

theorem readMarkup_declaration {d : Text} (hfree : '>' ∉ d) (hcomment : ¬ "--".toList <+: d)
    (offset : Nat) (t : Text) : readMarkup offset ('!' :: (d ++ '>' :: t)) = .ok ([], t) := by
  refine readMarkup_upTo_end (s := '!' :: d) ?_ (.inl rfl) (by simp [hfree]) offset
  intro hpre
  have hdashes : "--".toList <+: d ++ '>' :: t := (List.cons_prefix_cons.mp hpre).2
  match d, hcomment with
  | [], _ => simp at hdashes
  | [c], _ => simp at hdashes
  | c :: c' :: d, hcomment => exact hcomment (by simpa [List.cons_prefix_cons] using hdashes)

theorem readMarkup_endTag {x : Text} (hfree : '>' ∉ x) (offset : Nat) (t : Text) :
    readMarkup offset ('/' :: (x ++ '>' :: t)) = .ok ([], t) :=
  readMarkup_upTo_end (s := '/' :: x) (by simp) (.inr rfl) (by simp [hfree]) offset

namespace Tag

variable (tag : Tag)

theorem isTagNameChar_of_mem_fullName {c : Char} (hc : c ∈ tag.fullName) :
    isTagNameChar c = true := by
  rcases List.mem_cons.mp hc with rfl | hc
  · simp [isTagNameChar, Text.isAsciiAlnum, tag.isLetter]
  · exact tag.isName c hc

theorem initial_ne {c : Char} (hc : Text.isAsciiLetter c = false) : tag.initial ≠ c := by
  intro heq
  have hletter := tag.isLetter
  rw [heq, hc] at hletter
  cases hletter

end Tag

theorem not_isTagNameChar_of_isAsciiBlank {c : Char} (h : Text.isAsciiBlank c = true) :
    isTagNameChar c = false := by
  simp only [Text.isAsciiBlank, Bool.or_eq_true, decide_eq_true_eq] at h
  rcases h with (((rfl | rfl) | rfl) | rfl) | rfl <;> rfl

theorem not_isTagNameChar_head?_tagRest (attributes : List AttributePiece) {blanks : Text}
    (hblank : ∀ c ∈ blanks, Text.isAsciiBlank c = true) (selfClosing : Bool) (rest : Text) :
    ∀ c ∈ (tagRest attributes blanks selfClosing rest).head?, isTagNameChar c = false := by
  intro c hc
  cases attributes with
  | nil =>
      cases blanks with
      | nil =>
          have hend : c = '/' ∨ c = '>' := by
            cases selfClosing with
            | false => exact .inr (by simpa [tagRest, tagEnd] using hc.symm)
            | true => exact .inl (by simpa [tagRest, tagEnd] using hc.symm)
          rcases hend with rfl | rfl <;> rfl
      | cons b blanks =>
          have hb : b = c := by simpa [tagRest] using hc
          exact not_isTagNameChar_of_isAsciiBlank (hblank c (by simp [hb]))
  | cons a attributes =>
      obtain ⟨b, blanks, hblanks⟩ := List.exists_cons_of_ne_nil a.blanks_ne
      rw [tagRest_cons, AttributePiece.render, hblanks] at hc
      have hb : b = c := by simpa using hc
      exact not_isTagNameChar_of_isAsciiBlank (a.blank c (by simp [hblanks, hb]))

theorem readMarkup_startTag (tag : Tag) (selfClosing : Bool) (offset : Nat) (t : Text) :
    readMarkup offset (tag.fullName ++ tagRest tag.attributes tag.blanks selfClosing t)
      = .ok (AttributePiece.toAttributes (offset + 1 + Text.bytes tag.fullName) tag.attributes,
          if selfClosing then t else afterRawContent tag.fullName t) := by
  have hnames := fun c hc => tag.isTagNameChar_of_mem_fullName (c := c) hc
  have hrest := not_isTagNameChar_head?_tagRest tag.attributes tag.blank selfClosing t
  have hcomment : ¬ "!--".toList <+:
      tag.fullName ++ tagRest tag.attributes tag.blanks selfClosing t :=
    fun hpre => tag.initial_ne rfl (List.cons_prefix_cons.mp hpre).1.symm
  have hbang := tag.initial_ne (c := '!') rfl
  have hslash := tag.initial_ne (c := '/') rfl
  rw [readMarkup, Text.after?_eq_none_iff.mpr hcomment]
  simp only [Text.takeWhile_append_of_head? hnames hrest,
    Text.dropWhile_append_of_head? hnames hrest, readTagBody_tagRest _ _ _ tag.blank]
  simp [Tag.fullName, hbang, hslash]

end KeyLint.Template
