import Mathlib.Data.List.Basic
import KeyLint.Proofs.Template.Attributes
import KeyLint.Proofs.Template.Located

/-!
# Spans of the items of a template

Whatever a template looks like, if it can be read then its items stand in it where their spans say.
Each reader takes a part of the text off its beginning and leaves the rest, and gives items that
stand in the part it took; the theorem for the whole template puts these parts together.
-/

namespace KeyLint.Template

/-! ## Regions -/

/-- The segments stand in a text that begins at an offset, with something or nothing between two of
them. -/
inductive Divided : (offset : Nat) → Text → List Segment → Prop
  | last {offset : Nat} {t : Text} : Divided offset t [⟨offset, t⟩]
  | cons {offset : Nat} {t : Text} {rest : List Segment} (s between : Text)
      (h : Divided (offset + Text.bytes s + Text.bytes between) t rest) :
      Divided offset (s ++ between ++ t) (⟨offset, s⟩ :: rest)

theorem Divided.prepend {offset : Nat} {t : Text} {rest : List Segment} (before : Text)
    (h : Divided (offset + Text.bytes before) t rest) :
    Divided offset (before ++ t) (Template.prepend offset before rest) := by
  cases h with
  | last => exact .last
  | cons s between h =>
      rw [List.append_assoc, ← List.append_assoc, ← List.append_assoc]
      refine .cons (before ++ s) between ?_
      rwa [Text.bytes_append, ← Nat.add_assoc]

theorem afterParens_suffix (depth : Nat) (t : Text) : afterParens depth t <:+ t := by
  fun_induction afterParens depth t with
  | case1 => exact List.suffix_refl _
  | case2 depth cs ih => exact ih.trans (List.suffix_cons _ _)
  | case3 cs => exact List.suffix_cons _ _
  | case4 depth cs ih => exact ih.trans (List.suffix_cons _ _)
  | case5 depth c cs _ _ _ ih => exact ih.trans (List.suffix_cons _ _)

theorem afterCondition_suffix (t : Text) : afterCondition t <:+ t := by
  unfold afterCondition
  split
  · next cs =>
      have hparens := (List.dropWhile_suffix Text.isAsciiBlank).trans (afterParens_suffix 0 cs)
      exact hparens.trans (List.suffix_cons _ _)
  · exact List.suffix_refl _

theorem afterElseIf_suffix (keyword t : Text) : afterElseIf keyword t <:+ t := by
  unfold afterElseIf
  split
  · split
    · next rest hafter =>
        have hrest : rest <:+ t := ⟨_, (Text.eq_append_of_after?_eq_some hafter).symm⟩
        exact (List.dropWhile_suffix Text.isAsciiBlank).trans hrest
    · exact List.suffix_refl _
  · exact List.suffix_refl _

theorem afterControlFlow?_suffix {t rest : Text} (h : afterControlFlow? t = some rest) :
    rest <:+ t := by
  have hkeyword : t.dropWhile Text.isAsciiLetter <:+ t := List.dropWhile_suffix _
  simp only [afterControlFlow?] at h
  split at h
  · cases h
    exact ((List.drop_suffix _ _).trans (List.dropWhile_suffix _)).trans hkeyword
  split at h
  · split at h
    · next body hbody =>
        cases h
        have hblanks : skipBlanks (t.dropWhile Text.isAsciiLetter) <:+ t :=
          (List.dropWhile_suffix _).trans hkeyword
        have hheader : '\x7b' :: rest <:+ t := by
          rw [← hbody]
          exact ((afterCondition_suffix _).trans (afterElseIf_suffix _ _)).trans hblanks
        exact (List.suffix_cons _ _).trans hheader
    · cases h
  · cases h

theorem eq_interpolation_append {c : Char} {cs body rest : Text}
    (hopen : (c = '\x7b' && cs.head? = some '\x7b') = true)
    (hcut : Text.cut? "\x7d\x7d".toList (cs.drop 1) = some (body, rest)) :
    c :: cs = "\x7b\x7b".toList ++ body ++ "\x7d\x7d".toList ++ rest := by
  obtain ⟨hc, hhead⟩ : c = '\x7b' ∧ cs.head? = some '\x7b' := by simpa using hopen
  obtain ⟨ds, rfl⟩ := List.head?_eq_some_iff.mp hhead
  have hds := Text.eq_append_of_cut?_eq_some hcut
  simp only [List.drop_one, List.tail_cons] at hds
  simp [hc, hds]

theorem divided_segments (offset : Nat) (t : Text) : Divided offset t (segments offset t) := by
  fun_induction segments offset t with
  | case1 offset => exact .last
  | case2 offset c cs hopen body rest hcut interpolation ih =>
      rw [eq_interpolation_append hopen hcut]
      exact ih.prepend _
  | case3 offset c cs hopen hcut => exact .last
  | case4 offset cs rest hafter _ ih =>
      obtain ⟨header, hheader⟩ := afterControlFlow?_suffix hafter
      rw [← hheader]
      refine .cons [] ('@' :: header) ?_
      simpa [← hheader, ← Nat.add_assoc] using ih
  | case5 offset cs hafter _ ih => exact ih.prepend ['@']
  | case6 offset cs _ _ ih => exact .cons [] ['\x7d'] ih
  | case7 offset c cs _ _ _ ih => exact ih.prepend [c]

theorem Segment.located_item? (segment : Segment) :
    Located segment.offset segment.text segment.item?.toList := by
  obtain ⟨offset, text⟩ := segment
  obtain ⟨rest, hrest, _⟩ := Text.eq_append_trim text
  unfold Segment.item?
  by_cases hempty : (Text.trim text).isEmpty
  · simp only [hempty, if_true]
    exact .nil
  have hne : Text.trim text ≠ [] := by simpa using hempty
  simp only [hempty, Bool.false_eq_true, if_false]
  -- The trimmed text stands between the blanks that were taken off.
  have hlocated : ∀ item : Item, item.IsWritten (Text.trim text) →
      item.span = ⟨offset + Text.bytes (text.takeWhile Text.isBlank),
        offset + Text.bytes (text.takeWhile Text.isBlank) + Text.bytes (Text.trim text)⟩ →
      Located offset text [item] := by
    intro item hwritten hspan
    have h := Located.single rest hne hspan hwritten
    rwa [← hrest] at h
  split
  · exact hlocated _ rfl rfl
  · refine hlocated _ ⟨rfl, ?_, ?_⟩ rfl
    · exact fun c hc => Text.not_isBlank_of_head?_trim hc
    · exact fun c hc => Text.not_isBlank_of_getLast?_trim hc

theorem Divided.located {offset : Nat} {t : Text} {segments : List Segment}
    (h : Divided offset t segments) : Located offset t (segments.filterMap Segment.item?) := by
  induction h with
  | @last offset t =>
      simpa [List.filterMap_eq_flatMap_toList] using Segment.located_item? ⟨offset, t⟩
  | @cons offset t rest s between _ ih =>
      have hfirst := Segment.located_item? ⟨offset, s⟩
      have hall := hfirst.append (ih.skip between)
      rw [← List.append_assoc] at hall
      simpa [List.filterMap_eq_flatMap_toList] using hall

theorem located_regionItems (offset : Nat) (region : Text) :
    Located offset region (regionItems offset region) :=
  (divided_segments offset region).located

/-! ## Attributes -/

theorem endsName_of_mem_readName {t : Text} {c : Char} (h : c ∈ (readName t).1) :
    endsName c = false := by
  induction t with
  | nil => simp [readName] at h
  | cons d t ih =>
      rw [readName] at h
      split at h
      · simp at h
      · next hd =>
          rcases List.mem_cons.mp h with rfl | h
          · simp_all
          · exact ih h

theorem isAttributeName_readName {t : Text} (h : (readName t).1 ≠ []) :
    IsAttributeName (readName t).1 := by
  refine ⟨h, ?_⟩
  intro c hc
  simpa [endsName, and_assoc] using endsName_of_mem_readName hc

theorem writtenAttribute_readValue? {name blanks moreBlanks t rest : Text} {v : Value}
    (hblanks : ∀ c ∈ blanks, Text.isAsciiBlank c = true)
    (hmore : ∀ c ∈ moreBlanks, Text.isAsciiBlank c = true)
    (h : readValue? t = some (v, rest)) :
    t = v.written ++ rest ∧
      WrittenAttribute name v.text (name ++ (blanks ++ '=' :: (moreBlanks ++ v.written))) := by
  unfold readValue? at h
  split at h
  · obtain ⟨⟨value, rest'⟩, hcut, heq⟩ := Option.map_eq_some_iff.mp h
    cases heq
    refine ⟨by simpa using Text.eq_append_of_cut?_eq_some hcut, ?_⟩
    exact .quoted hblanks hmore (.inl rfl) (Text.not_mem_of_cut? hcut)
  · obtain ⟨⟨value, rest'⟩, hcut, heq⟩ := Option.map_eq_some_iff.mp h
    cases heq
    refine ⟨by simpa using Text.eq_append_of_cut?_eq_some hcut, ?_⟩
    exact .quoted hblanks hmore (.inr rfl) (Text.not_mem_of_cut? hcut)
  · next hdouble hsingle =>
      cases h
      refine ⟨List.takeWhile_append_dropWhile.symm, .unquoted hblanks hmore ?_ ?_⟩
      · intro c hc
        have hhead : t.head? = some c := by
          cases t with
          | nil => simp at hc
          | cons d t =>
              rw [List.takeWhile_cons] at hc
              split at hc
              · exact hc
              · simp at hc
        obtain ⟨u, rfl⟩ := List.head?_eq_some_iff.mp hhead
        exact ⟨fun hq => hdouble u (by rw [hq]), fun hq => hsingle u (by rw [hq])⟩
      · intro c hc
        simpa using List.mem_takeWhile_imp hc

theorem writtenAttribute_readAssignment? {name t value rest : Text} {width : Nat}
    (h : readAssignment? t = some (value, width, rest)) :
    ∃ assignment, t = assignment ++ rest ∧ width = Text.bytes assignment ∧
      WrittenAttribute name value (name ++ assignment) := by
  simp only [readAssignment?] at h
  split at h
  · next cs hdrop =>
      obtain ⟨⟨v, rest'⟩, hvalue, heq⟩ := Option.map_eq_some_iff.mp h
      cases heq
      obtain ⟨hcs, hwritten⟩ : cs.dropWhile Text.isAsciiBlank = v.written ++ rest' ∧
          WrittenAttribute name v.text (name ++ (t.takeWhile Text.isAsciiBlank
            ++ '=' :: (cs.takeWhile Text.isAsciiBlank ++ v.written))) :=
        writtenAttribute_readValue? (fun _ => List.mem_takeWhile_imp)
          (fun _ => List.mem_takeWhile_imp) hvalue
      refine ⟨_, ?_, ?_, hwritten⟩
      · calc t = t.takeWhile Text.isAsciiBlank ++ t.dropWhile Text.isAsciiBlank :=
              List.takeWhile_append_dropWhile.symm
          _ = t.takeWhile Text.isAsciiBlank
                ++ '=' :: (cs.takeWhile Text.isAsciiBlank ++ (v.written ++ rest')) := by
              rw [hdrop, ← hcs, List.takeWhile_append_dropWhile]
          _ = _ := by simp
      · simp [Nat.add_assoc, show '='.utf8Size = 1 from rfl]
  · cases h
    exact ⟨[], rfl, rfl, by simpa using .alone⟩

theorem classify?_eq_some {name value : Text} {span : Span} {item : Item}
    (h : classify? name value span = some item) :
    (∃ n v structural, item = .textAttribute n v structural span) ∨
      ∃ n source, item = .boundAttribute n source span := by
  obtain ⟨form, hform⟩ := exists_hasForm name
  rw [classify?_of_hasForm hform] at h
  cases form with
  | bound inner =>
      cases h
      exact .inr ⟨_, _, rfl⟩
  | skipped => cases h
  | structural inner =>
      cases h
      exact .inl ⟨_, _, _, rfl⟩
  | plain =>
      rw [NameForm.item?] at h
      split at h
      · cases h
        exact .inr ⟨_, _, rfl⟩
      · cases h
        exact .inl ⟨_, _, _, rfl⟩

theorem isWritten_of_classify? {name value written : Text} {span : Span} {item : Item}
    (hname : IsAttributeName name) (hwritten : WrittenAttribute name value written)
    (h : classify? name value span = some item) : item.span = span ∧ item.IsWritten written := by
  rcases classify?_eq_some h with ⟨n, v, structural, rfl⟩ | ⟨n, source, rfl⟩
  · exact ⟨rfl, name, value, hname, hwritten, h⟩
  · exact ⟨rfl, name, value, hname, hwritten, h⟩

theorem located_readAttribute {offset : Nat} {t rest : Text} {a : Option Attribute}
    (h : readAttribute offset t = .ok (a, rest)) :
    ∃ taken, t = taken ++ rest ∧ Located offset taken (a.toList.filterMap Attribute.item?) := by
  unfold readAttribute at h
  split at h
  · cases h
    exact ⟨t.take 1, (List.take_append_drop 1 t).symm, .nil⟩
  · next name rest' hname hread =>
      have hsplit := eq_append_readName t
      have hisName := isAttributeName_readName (t := t)
      rw [hread] at hsplit hisName
      split at h
      · cases h
      · next value width rest'' hassign =>
          cases h
          obtain ⟨assignment, hrest, rfl, hwritten⟩ :
              ∃ assignment, rest' = assignment ++ rest ∧ width = Text.bytes assignment ∧
                WrittenAttribute name value (name ++ assignment) :=
            writtenAttribute_readAssignment? hassign
          refine ⟨name ++ assignment, by simpa [hrest] using hsplit, ?_⟩
          cases hitem : classify? name value ⟨offset, offset + Text.bytes name + Text.bytes assignment⟩ with
          | none => simpa [Attribute.item?, hitem] using .nil
          | some item =>
              obtain ⟨hspan, his⟩ := isWritten_of_classify? (hisName hname) hwritten hitem
              have hlocated : Located offset ([] ++ (name ++ assignment) ++ []) [item] :=
                .single [] (List.append_ne_nil_of_left_ne_nil hname _) (by simp [hspan, Nat.add_assoc]) his
              simpa [Attribute.item?, hitem] using hlocated

/-! ## Tags and other markup -/

theorem located_readTagBody {unclosed : Error} {offset : Nat} {t : Text} {body : TagBody}
    (h : readTagBody unclosed offset t = .ok body) :
    ∃ taken, t = taken ++ body.rest ∧
      Located offset taken (body.attributes.filterMap Attribute.item?) := by
  fun_induction readTagBody unclosed offset t generalizing body with
  | case1 => cases h
  | case2 offset c cs _ ih =>
      obtain ⟨taken, rfl, hlocated⟩ := ih h
      exact ⟨c :: taken, rfl, hlocated.skip [c]⟩
  | case3 offset cs =>
      cases h
      exact ⟨['>'], rfl, .nil⟩
  | case4 offset c cs _ _ _ =>
      cases h
      exact ⟨c :: cs.take 1, by rw [List.cons_append, List.take_append_drop], .nil⟩
  | case5 offset cs _ _ _ ih =>
      obtain ⟨taken, rfl, hlocated⟩ := ih h
      exact ⟨'/' :: taken, rfl, hlocated.skip ['/']⟩
  | case6 => cases h
  | case7 => cases h
  | case8 offset c cs _ _ _ _ attribute? rest hread inner hinner ih =>
      cases h
      obtain ⟨first, hfirst, hattribute⟩ := located_readAttribute hread
      obtain ⟨taken, hrest, hlocated⟩ := ih hinner
      refine ⟨first ++ taken, by simp [hfirst, hrest], ?_⟩
      have hbytes : Text.bytes (c :: cs) - Text.bytes rest = Text.bytes first := by
        rw [hfirst, Text.bytes_append]
        omega
      rw [hbytes] at hlocated
      simpa using hattribute.append hlocated

theorem skipTo_suffix (word t : Text) : skipTo word t <:+ t := by
  induction t with
  | nil => exact List.suffix_refl _
  | cons c cs ih =>
      rw [skipTo]
      split
      · exact List.suffix_refl _
      · exact ih.trans (List.suffix_cons c cs)

theorem afterRawContent_suffix (name t : Text) : afterRawContent name t <:+ t := by
  unfold afterRawContent
  split
  · exact skipTo_suffix _ _
  · exact List.suffix_refl _

theorem located_readMarkup {offset : Nat} {t rest : Text} {attributes : List Attribute}
    (h : readMarkup offset t = .ok (attributes, rest)) :
    ∃ taken, t = taken ++ rest ∧
      Located (offset + 1) taken (attributes.filterMap Attribute.item?) := by
  unfold readMarkup at h
  split at h
  · next comment hafter =>
      split at h
      · cases h
      · next body _ hcut =>
          cases h
          refine ⟨"!--".toList ++ body ++ "-->".toList, ?_, .nil⟩
          simp [Text.eq_append_of_after?_eq_some hafter, Text.eq_append_of_cut?_eq_some hcut]
  split at h
  · split at h
    · cases h
    · next body _ hcut =>
        cases h
        exact ⟨body ++ ">".toList, Text.eq_append_of_cut?_eq_some hcut, .nil⟩
  · simp only at h
    split at h
    · cases h
    · next body hbody =>
        cases h
        obtain ⟨taken, htaken, hlocated⟩ := located_readTagBody hbody
        have hname : t = t.takeWhile isTagNameChar ++ t.dropWhile isTagNameChar :=
          List.takeWhile_append_dropWhile.symm
        have hrest : (if body.selfClosing then body.rest
            else afterRawContent (t.takeWhile isTagNameChar) body.rest) <:+ body.rest := by
          split
          · exact List.suffix_refl _
          · exact afterRawContent_suffix _ _
        obtain ⟨raw, hraw⟩ := hrest
        refine ⟨t.takeWhile isTagNameChar ++ (taken ++ raw), ?_, ?_⟩
        · calc t = t.takeWhile isTagNameChar ++ (taken ++ body.rest) := by rwa [← htaken]
            _ = t.takeWhile isTagNameChar ++ (taken ++ (raw ++ _)) := by rw [hraw]
            _ = _ := by simp
        · have hall := (hlocated.append (t := raw) .nil).skip (t.takeWhile isTagNameChar)
          rwa [List.append_nil] at hall

/-! ## The whole template -/

theorem eq_append_of_readRegion {offset : Nat} {t region rest : Text}
    (h : readRegion offset t = .ok (region, rest)) : t = region ++ rest := by
  fun_induction readRegion offset t generalizing region with
  | case1 =>
      cases h
      rfl
  | case2 => cases h
  | case3 => cases h
  | case4 offset c cs hopen body tail hcut interpolation region _ hinner =>
      rename_i ih
      cases h
      rw [eq_interpolation_append hopen hcut, List.append_assoc _ region, ← ih hinner]
  | case5 =>
      cases h
      rfl
  | case6 => cases h
  | case7 offset c cs _ _ _ _ hinner ih =>
      cases h
      rw [List.cons_append, ← ih hinner]

theorem opening_of_readRegion {offset : Nat} {t region rest : Text} {c : Char}
    (h : readRegion offset t = .ok (region, c :: rest)) : c = '<' := by
  fun_induction readRegion offset t generalizing region with
  | case1 => cases h
  | case2 => cases h
  | case3 => cases h
  | case4 offset c cs hopen body tail hcut interpolation region _ hinner =>
      rename_i ih
      cases h
      exact ih hinner
  | case5 offset c cs _ hmarkup =>
      cases h
      simp at hmarkup
      exact hmarkup.1
  | case6 => cases h
  | case7 offset c cs _ _ region _ hinner ih =>
      cases h
      exact ih hinner

theorem located_itemsFrom {offset : Nat} {t : Text} {items : List Item}
    (h : itemsFrom offset t = .ok items) : Located offset t items := by
  fun_induction itemsFrom offset t generalizing items with
  | case1 => cases h
  | case2 offset t region hregion =>
      cases h
      rw [eq_append_of_readRegion hregion, List.append_nil]
      exact located_regionItems offset region
  | case3 => cases h
  | case4 => cases h
  | case5 offset t region opening markup hregion markupOffset attributes rest hmarkup restOffset more
      hmore =>
      rename_i ih
      cases h
      obtain rfl := opening_of_readRegion hregion
      obtain ⟨taken, htaken, hattributes⟩ := located_readMarkup hmarkup
      have hregionItems := located_regionItems offset region
      have hstop : restOffset = markupOffset + 1 + Text.bytes taken := by
        simp only [restOffset, htaken, Text.bytes_cons, Text.bytes_append,
          show '<'.utf8Size = 1 from rfl]
        omega
      have hmoreItems := ih hmore
      rw [hstop] at hmoreItems
      rw [eq_append_of_readRegion hregion, htaken, List.append_assoc]
      exact hregionItems.append ((hattributes.append hmoreItems).skip ['<'])

/-- The items of a template stand where their spans say: each span is not empty, has its ends between
characters, and holds what its item was made from, and the spans follow each other without overlap. -/
theorem spans_of_items {source : Text} {items : List Item} (h : Template.items source = .ok items) :
    (∀ item ∈ items, item.span.start < item.span.stop ∧ item.span.stop ≤ Text.bytes source ∧
      ∃ written, Text.slice? source item.span = some written ∧ item.IsWritten written) ∧
    items.Pairwise fun a b => a.span.stop ≤ b.span.start := by
  have hlocated : Located 0 source items := located_itemsFrom h
  refine ⟨?_, hlocated.pairwise⟩
  intro item hitem
  obtain ⟨_, hlt, hle⟩ := hlocated.span_bounds item hitem
  rw [Nat.zero_add] at hle
  exact ⟨hlt, hle, hlocated.isWritten_slice (s := []) rfl item hitem⟩

/-- An attribute and a text with characters of two bytes, found again at their spans. -/
theorem spans_of_tag_and_text :
    Template.items "<a b= 'é'> ß &lt; ".toList
      = .ok [.textAttribute "b".toList "é".toList false ⟨3, 10⟩, .text "ß <".toList ⟨12, 19⟩] ∧
    ∀ item ∈ [Item.textAttribute "b".toList "é".toList false ⟨3, 10⟩, .text "ß <".toList ⟨12, 19⟩],
      ∃ written, Text.slice? "<a b= 'é'> ß &lt; ".toList item.span = some written ∧
        item.IsWritten written := by
  have hitems : Template.items "<a b= 'é'> ß &lt; ".toList
      = .ok [.textAttribute "b".toList "é".toList false ⟨3, 10⟩, .text "ß <".toList ⟨12, 19⟩] := by
    decide +kernel
  exact ⟨hitems, fun item hitem => ((spans_of_items hitems).1 item hitem).2.2⟩

end KeyLint.Template
