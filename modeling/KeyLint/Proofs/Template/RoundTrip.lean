import KeyLint.Proofs.Template.Tags

/-!
# Reading back what was written

A template that is written from pieces is read without an error, and its items are those of the
pieces.
-/

namespace KeyLint.Template

/-! ## One round of the reader -/

theorem itemsFrom_of_region_error {offset : Nat} {t : Text} {e : Error}
    (hregion : readRegion offset t = .error e) : itemsFrom offset t = .error e := by
  rw [itemsFrom]
  split
  · next hbad =>
      rw [hregion] at hbad
      cases hbad
      rfl
  · next hgood =>
      rw [hregion] at hgood
      cases hgood
  · next hgood =>
      rw [hregion] at hgood
      cases hgood

theorem itemsFrom_of_region {offset : Nat} {t region : Text}
    (hregion : readRegion offset t = .ok (region, [])) :
    itemsFrom offset t = .ok (regionItems offset region) := by
  rw [itemsFrom]
  split
  · next hbad =>
      rw [hregion] at hbad
      cases hbad
  · next hgood =>
      rw [hregion] at hgood
      cases hgood
      rfl
  · next hbad =>
      rw [hregion] at hbad
      cases hbad

/-- A round with markup in it. -/
theorem itemsFrom_eq_bind {offset : Nat} {t region markup : Text}
    (hregion : readRegion offset t = .ok (region, '<' :: markup)) :
    itemsFrom offset t
      = (readMarkup (offset + Text.bytes region) markup).bind fun found =>
        (itemsFrom (offset + Text.bytes region + (Text.bytes ('<' :: markup) - Text.bytes found.2))
          found.2).map fun after =>
            regionItems offset region ++ (found.1.filterMap Attribute.item? ++ after) := by
  rw [itemsFrom]
  split
  · next hbad =>
      rw [hregion] at hbad
      cases hbad
  · next hbad =>
      rw [hregion] at hbad
      cases hbad
  · next hgood =>
      rw [hregion] at hgood
      cases hgood
      dsimp only
      split
      · next hread =>
          rw [hread]
          rfl
      · next attributes rest hread =>
          rw [hread]
          dsimp only [Except.bind]
          cases itemsFrom (offset + Text.bytes region
              + (Text.bytes ('<' :: markup) - Text.bytes rest)) rest with
          | error e => rfl
          | ok after => simp only [Except.map, List.append_assoc]

/-- A round whose `markup` is read up to `rest`, which leaves the part `written`. -/
theorem itemsFrom_markup_eq {offset : Nat} {t region s markup written rest : Text}
    {attributes : List Attribute} (hregion : readRegion offset t = .ok (region, s))
    (hs : s = '<' :: markup)
    (hmarkup : readMarkup (offset + Text.bytes region) markup = .ok (attributes, rest))
    (hwritten : s = written ++ rest) :
    itemsFrom offset t
      = (itemsFrom (offset + Text.bytes region + Text.bytes written) rest).map fun after =>
        regionItems offset region ++ (attributes.filterMap Attribute.item? ++ after) := by
  have hbytes : Text.bytes ('<' :: markup) - Text.bytes rest = Text.bytes written := by
    rw [← hs, hwritten, Text.bytes_append, Nat.add_sub_cancel]
  rw [hs] at hregion
  rw [itemsFrom_eq_bind hregion, hmarkup]
  simp only [Except.bind, hbytes]

theorem itemsFrom_of_markup {offset : Nat} {t region s markup written rest : Text}
    {attributes : List Attribute} {after : List Item}
    (hregion : readRegion offset t = .ok (region, s)) (hs : s = '<' :: markup)
    (hmarkup : readMarkup (offset + Text.bytes region) markup = .ok (attributes, rest))
    (hwritten : s = written ++ rest)
    (hrest : itemsFrom (offset + Text.bytes region + Text.bytes written) rest = .ok after) :
    itemsFrom offset t
      = .ok (regionItems offset region ++ (attributes.filterMap Attribute.item? ++ after)) := by
  rw [itemsFrom_markup_eq hregion hs hmarkup hwritten, hrest]
  rfl

theorem regionItems_nil (offset : Nat) : regionItems offset [] = [] := by
  simp [regionItems, segments, Segment.item?, Text.trim, Text.trimStart, Text.trimEnd]

/-! ## A piece of markup after a region -/

namespace Markup

theorem endsRegion (m : Markup) (t : Text) : EndsRegion (m.render ++ t) := by
  refine .inr ⟨(m.render ++ t).tail, ?_, ?_⟩
  · cases m <;> rfl
  · cases m with
    | comment | declaration | endTag => rfl
    | startTag tag | rawElement tag =>
        exact Bool.or_eq_true_iff.mpr (.inl (by simp [tag.isLetter]))

theorem itemsFrom_endTag {offset : Nat} {endName endRest t : Text} {after : List Item}
    (hfree : '>' ∉ endName ++ endRest)
    (hafter : itemsFrom
      (offset + Text.bytes ("</".toList ++ (endName ++ (endRest ++ ['>'])))) t = .ok after) :
    itemsFrom offset ("</".toList ++ (endName ++ (endRest ++ '>' :: t))) = .ok after := by
  have hregion := ReadsRegion.of_endsRegion (endsRegion (.endTag _ hfree) t) offset
  have hrest : itemsFrom (offset + Text.bytes [] + Text.bytes (endTag _ hfree).render) t
      = .ok after := by
    simpa [render] using hafter
  have hround := itemsFrom_of_markup hregion (by simp [render]) (readMarkup_endTag hfree _ t) rfl
    hrest
  rw [regionItems_nil] at hround
  simpa [render] using hround

theorem not_mem_end_of_raw {raw endName endRest : Text} (hraw : raw ∈ rawElements)
    (hend : Text.eqIgnoringAsciiCase raw endName = true) (hfree : '>' ∉ endRest) :
    '>' ∉ endName ++ endRest := by
  have hrawFree : ∀ raw ∈ rawElements, '>' ∉ raw := by decide
  have hmap := of_decide_eq_true hend
  rw [map_toSmallAscii_of_raw hraw] at hmap
  rw [List.mem_append]
  rintro (hin | hin)
  · exact hrawFree raw hraw (hmap ▸ List.mem_map_of_mem (f := Text.toSmallAscii) hin)
  · exact hfree hin

theorem itemsFrom_append (m : Markup) {offset : Nat} {region t : Text} {after : List Item}
    (hregion : ReadsRegion (region ++ (m.render ++ t)) region (m.render ++ t))
    (hafter : itemsFrom (offset + Text.bytes region + Text.bytes m.render) t = .ok after) :
    itemsFrom offset (region ++ (m.render ++ t))
      = .ok (regionItems offset region ++ (m.items (offset + Text.bytes region) ++ after)) := by
  have hread := hregion offset
  cases m with
  | comment c hfree =>
      exact itemsFrom_of_markup hread (by simp [render]) (readMarkup_comment hfree _ t) rfl hafter
  | declaration d hfree hcomment =>
      exact itemsFrom_of_markup hread (by simp [render])
        (readMarkup_declaration hfree hcomment _ t) rfl hafter
  | endTag x hfree =>
      exact itemsFrom_of_markup hread (by simp [render]) (readMarkup_endTag hfree _ t) rfl hafter
  | startTag tag selfClosing hraw =>
      have hmarkup := readMarkup_startTag tag selfClosing (offset + Text.bytes region) t
      have hrest : (if selfClosing then t else afterRawContent tag.fullName t) = t := by
        cases selfClosing with
        | false => exact afterRawContent_of_not_raw (hraw rfl) t
        | true => rfl
      rw [hrest] at hmarkup
      have hround := itemsFrom_of_markup hread (by simp [render, Tag.render, tagRest]) hmarkup rfl
        hafter
      rw [AttributePiece.filterMap_toAttributes] at hround
      exact hround
  | rawElement tag raw content endName endRest hraw hname hcontent hend hfree =>
      -- The element takes two rounds: its start tag with its content, and its end tag.
      have hmarkup := readMarkup_startTag tag false (offset + Text.bytes region)
        (content ++ ("</".toList ++ (endName ++ (endRest ++ '>' :: t))))
      rw [if_neg Bool.false_ne_true, afterRawContent_append hraw hname hcontent hend] at hmarkup
      have hendTag : itemsFrom
          (offset + Text.bytes region + Text.bytes (tag.render ++ (tagEnd false ++ content)))
          ("</".toList ++ (endName ++ (endRest ++ '>' :: t))) = .ok after :=
        itemsFrom_endTag (not_mem_end_of_raw hraw hend hfree)
          (by simpa [render, Nat.add_assoc] using hafter)
      have hround := itemsFrom_of_markup hread (by simp [render, Tag.render, tagRest]) hmarkup
        (by simp [render]) hendTag
      rw [AttributePiece.filterMap_toAttributes] at hround
      exact hround

end Markup

/-! ## The whole template -/

theorem itemsAfter_start {tail : List Piece} (after : Nat → List Item)
    (htail : ∀ run, itemsAfter run tail = run.items ++ after run.stop)
    (pieces : List RegionPiece) (offset : Nat) :
    itemsAfter { start := offset } (pieces.map .region ++ tail)
      = regionItems offset (renderRegion pieces)
        ++ after (offset + Text.bytes (renderRegion pieces)) := by
  have htext : Run.text { start := offset } = [] := rfl
  have hstop : Run.stop { start := offset } = offset := rfl
  rw [itemsAfter_region htail, htext, hstop, prepend_nil_segments]
  rfl

/-- The pieces `seen` of the region that the reader is in are put back to the template, so that the
region is read as a whole once its end is seen. -/
theorem itemsFrom_render (pieces : List Piece) (seen : List RegionPiece) (offset : Nat) :
    itemsFrom offset (renderRegion seen ++ render pieces)
      = .ok (itemsAfter { start := offset } (seen.map .region ++ pieces)) := by
  induction pieces generalizing seen offset with
  | nil =>
      have hread := (readsRegion_render seen (.inl rfl)).1 offset
      have hlast : ∀ run, itemsAfter run [] = run.items ++ [] :=
        fun run => (List.append_nil run.items).symm
      rw [itemsAfter_start (fun _ => []) hlast, List.append_nil]
      exact itemsFrom_of_region hread
  | cons piece pieces ih =>
      cases piece with
      | region r =>
          have hnext := ih (seen ++ [r]) offset
          simpa [renderRegion, render, Piece.render] using hnext
      | markup m =>
          have hread := (readsRegion_render seen (m.endsRegion (render pieces))).1
          have hafter := ih [] (offset + Text.bytes (renderRegion seen) + Text.bytes m.render)
          rw [itemsAfter_start (fun stop => m.items stop
            ++ itemsAfter { start := stop + Text.bytes m.render } pieces) (fun _ => rfl)]
          exact m.itemsFrom_append hread hafter

/-- A template written from pieces is read back: no error, and exactly the items of the pieces. -/
theorem items_render (pieces : List Piece) :
    items (render pieces) = .ok (itemsAfter { start := 0 } pieces) :=
  itemsFrom_render pieces [] 0

-- The opening brace of a block directly before an interpolation, its closing brace directly after.
example : items "@if (x) \x7b\x7b\x7b a \x7d\x7d\x7d".toList
    = .ok [.boundText "\x7b\x7b a \x7d\x7d".toList ⟨9, 16⟩] := by
  decide +kernel

end KeyLint.Template
