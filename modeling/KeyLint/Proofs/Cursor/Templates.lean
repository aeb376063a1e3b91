import KeyLint.Proofs.Cursor.Markup

/-!
# Templates by offsets

One loop moves over the template. Where markup opens, the region before it gives its items and the
cursor goes on behind the markup.
-/

namespace KeyLint.Cursor

/-- The byte at an offset, if there is one, says that a `<` before it opens markup. -/
def opensMarkupAt (bs : Octets) (i : Nat) : Bool :=
  bs[i]?.any fun b => Text.isAsciiLetter b || b = '/' || b = '!'

/-- The offset, the offset where the region begins, and the items found. -/
def readTurn (source : Text) :
    Nat × Nat × List Template.Item →
      Checked ((Nat × Nat × List Template.Item) ⊕ (Nat × List Template.Item))
  | (i, start, items) =>
    if i < (utf8 source).length then do
      let rest ← octetsBetween (utf8 source) i (utf8 source).length
      if "\x7b\x7b".toList.isPrefixOf rest then
        match findFrom? source (i + 2) "\x7d\x7d".toList with
        | some close => pure (.inl (close + 2, start, items))
        | none => .error (.refused (.unterminatedInterpolation i))
      else
        let b ← byteAt (utf8 source) i
        if b = '<' && opensMarkupAt (utf8 source) (i + 1) then
          let items ← flush source start i items
          let (next, items) ← markupAt source i items
          pure (.inl (next, next, items))
        else pure (.inl (i + 1, start, items))
    else pure (.inr (start, items))

/-- The items of the rest of a template. -/
def itemsFrom (source : Text) (state : Nat × Nat × List Template.Item) :
    Checked (List Template.Item) := do
  let (start, items) ←
    iterate (fun state => (utf8 source).length - state.1) (readTurn source) state
  flush source start (utf8 source).length items

/-- The items of a template. -/
def items (source : Text) : Checked (List Template.Item) :=
  itemsFrom source (0, 0, [])

/-! ## Turns -/

theorem opensMarkupAt_eq (s t : Text) :
    opensMarkupAt (utf8 (s ++ t)) (Text.bytes s) = Template.opensMarkup t := by
  have hclass : IsByteClass fun b => Text.isAsciiLetter b || b = '/' || b = '!' := by
    refine .of_isAscii fun c hc => ?_
    simp only [Bool.or_eq_true, decide_eq_true_eq] at hc
    rcases hc with (hletter | rfl) | rfl
    · exact isAscii_of_isAsciiLetter hletter
    all_goals decide
  cases t with
  | nil => simp [opensMarkupAt, Template.opensMarkup]
  | cons c t => rw [opensMarkupAt, getElem?_lead, Option.any_some, hclass.lead_eq, Template.opensMarkup]

theorem readTurn_interpolation (s t : Text) (start : Nat) (items : List Template.Item) :
    readTurn (s ++ '\x7b' :: '\x7b' :: t) (Text.bytes s, start, items)
      = match Text.cut? "\x7d\x7d".toList t with
        | some (body, _) =>
          .ok (.inl (Text.bytes (s ++ ("\x7b\x7b".toList ++ body ++ "\x7d\x7d".toList)), start, items))
        | none => .error (.refused (.unterminatedInterpolation (Text.bytes s))) := by
  have hprefix : "\x7b\x7b".toList.isPrefixOf ('\x7b' :: '\x7b' :: t) = true := by
    rw [isPrefixOf_braces]
    rfl
  rw [readTurn, if_pos (bytes_lt_length_utf8 _ _ _), octetsBetween_end, ok_bind,
    isPrefixOf_utf8 (by decide), if_pos hprefix, findFrom?_braces]
  cases Text.cut? "\x7d\x7d".toList t with
  | none => rfl
  | some found =>
      simp only [Option.map_some, bytes_interpolation]
      rfl

section Turns

variable {source : Text} {i start : Nat} {items : List Template.Item}

/-- A turn at a byte where no interpolation begins. -/
theorem readTurn_of_getElem? {rest : Octets} {b : Char}
    (hrest : octetsBetween (utf8 source) i (utf8 source).length = .ok rest)
    (hopen : "\x7b\x7b".toList.isPrefixOf rest = false) (hget : (utf8 source)[i]? = some b) :
    readTurn source (i, start, items)
      = if b = '<' && opensMarkupAt (utf8 source) (i + 1) then do
          let items ← flush source start i items
          let (next, items) ← markupAt source i items
          pure (.inl (next, next, items))
        else pure (.inl (i + 1, start, items)) := by
  have hlt : i < (utf8 source).length := (List.getElem?_eq_some_iff.mp hget).1
  rw [readTurn, if_pos hlt, hrest, ok_bind, hopen, if_neg Bool.false_ne_true, byteAt, hget, ok_bind]

end Turns

theorem readTurn_markup (s : Text) {t : Text} (ht : Template.opensMarkup t = true) (start : Nat)
    (items : List Template.Item) :
    readTurn (s ++ '<' :: t) (Text.bytes s, start, items)
      = (do
        let items ← flush (s ++ '<' :: t) start (Text.bytes s) items
        let (next, items) ← markupAt (s ++ '<' :: t) (Text.bytes s) items
        pure (.inl (next, next, items))) := by
  have hget : (utf8 (s ++ '<' :: t))[Text.bytes s]? = some '<' := by
    rw [getElem?_lead, lead_of_isAscii (by decide)]
  have hopens := opensMarkupAt_eq (s ++ ['<']) t
  rw [bytes_append_singleton s (by decide), List.append_assoc, List.singleton_append, ht] at hopens
  rw [readTurn_of_getElem? (octetsBetween_end s ('<' :: t))
    (by rw [isPrefixOf_utf8 (by decide), isPrefixOf_braces]; rfl) hget, hopens]
  rfl

/-- A turn at any byte of a character that belongs to a region. -/
theorem readTurn_within (s : Text) {c : Char} {t : Text}
    (hopen : (c = '\x7b' && t.head? = some '\x7b') = false)
    (hmarkup : (c = '<' && Template.opensMarkup t) = false) (start : Nat)
    (items : List Template.Item) {k : Nat} (hk : k < c.utf8Size) :
    readTurn (s ++ c :: t) (Text.bytes s + k, start, items)
      = .ok (.inl (Text.bytes s + k + 1, start, items)) := by
  have hle : k ≤ Text.bytes (c :: t) := by
    rw [Text.bytes_cons]
    omega
  have hopen' : "\x7b\x7b".toList.isPrefixOf ((utf8 (c :: t)).drop k) = false :=
    isPrefixOf_drop_eq_false (by decide) (by rw [← hopen, ← isPrefixOf_braces]; rfl) hk
  have hrest := octetsBetween_drop s (c :: t) [] hle
  rw [List.append_nil, ← length_utf8 (s ++ c :: t)] at hrest
  obtain ⟨b, hget, hb⟩ := (IsByteClass.of_list ['<'] (by decide)).exists_getElem? s c t hk
  have hnot : (b = '<' && opensMarkupAt (utf8 (s ++ c :: t)) (Text.bytes s + k + 1)) = false := by
    by_cases hc : c = '<'
    · subst hc
      obtain rfl : k = 0 := Nat.lt_one_iff.mp hk
      have hopens := opensMarkupAt_eq (s ++ ['<']) t
      rw [bytes_append_singleton s (by decide), List.append_assoc, List.singleton_append] at hopens
      rw [Nat.add_zero, hopens, Bool.and_eq_false_iff]
      exact .inr (by simpa using hmarkup)
    · have hbne : b ≠ '<' := by simpa [hc] using hb
      rw [decide_eq_false hbne, Bool.false_and]
  rw [readTurn_of_getElem? hrest hopen' hget, hnot, if_neg Bool.false_ne_true]
  rfl

/-! ## Regions -/

section Steps

variable {source s cs : Text} {c : Char} {start : Nat} {items : List Template.Item}

theorem itemsFrom_next {state next : Nat × Nat × List Template.Item}
    (h : readTurn source state = .ok (.inl next))
    (hless : (utf8 source).length - next.1 < (utf8 source).length - state.1) :
    itemsFrom source state = itemsFrom source next := by
  rw [itemsFrom, itemsFrom, iterate_next h hless]

theorem itemsFrom_error {state : Nat × Nat × List Template.Item} {e : Stop}
    (h : readTurn source state = .error e) : itemsFrom source state = .error e := by
  rw [itemsFrom, iterate_error h]
  rfl

theorem itemsFrom_interpolation {body rest : Text}
    (hopen : (c = '\x7b' && cs.head? = some '\x7b') = true)
    (hcut : Text.cut? "\x7d\x7d".toList (cs.drop 1) = some (body, rest))
    (hsource : source = s ++ c :: cs) :
    itemsFrom source (Text.bytes s, start, items)
      = itemsFrom source
        (Text.bytes (s ++ ("\x7b\x7b".toList ++ body ++ "\x7d\x7d".toList)), start, items) := by
  obtain ⟨rfl, hhead⟩ : c = '\x7b' ∧ cs.head? = some '\x7b' := by simpa using hopen
  obtain ⟨cs, rfl⟩ := List.head?_eq_some_iff.mp hhead
  rw [List.drop_one, List.tail_cons] at hcut
  subst hsource
  have hturn := readTurn_interpolation s cs start items
  rw [hcut] at hturn
  exact itemsFrom_next hturn (left_lt s '\x7b' ('\x7b' :: cs) _)

theorem itemsFrom_char (hopen : (c = '\x7b' && cs.head? = some '\x7b') = false)
    (hmarkup : (c = '<' && Template.opensMarkup cs) = false) (hsource : source = s ++ c :: cs) :
    itemsFrom source (Text.bytes s, start, items)
      = itemsFrom source (Text.bytes (s ++ [c]), start, items) := by
  subst hsource
  have hpass : iterate (fun state => (utf8 (s ++ c :: cs)).length - state.1) (readTurn (s ++ c :: cs))
        (Text.bytes s, start, items)
      = iterate (fun state => (utf8 (s ++ c :: cs)).length - state.1) (readTurn (s ++ c :: cs))
        (Text.bytes (s ++ [c]), start, items) :=
    iterate_char (fun i => (i, start, items)) (fun _ => rfl) s c (by simp)
      fun _ hk => readTurn_within s hopen hmarkup start items hk
  rw [itemsFrom, itemsFrom, hpass]

end Steps

/-- The cursor passes a region, or the template is refused. -/
theorem itemsFrom_region {source : Text} {offset : Nat} (seen : Text) {t : Text}
    (hsource : source = seen ++ t) (hoffset : offset = Text.bytes seen) (start : Nat)
    (items : List Template.Item) :
    itemsFrom source (Text.bytes seen, start, items)
      = faultless (Template.readRegion offset t) >>= fun found =>
        itemsFrom source (Text.bytes (seen ++ found.1), start, items) := by
  fun_induction Template.readRegion offset t generalizing seen with
  | case1 => simp
  | case2 offset c cs hopen hcut =>
      obtain ⟨rfl, hhead⟩ : c = '\x7b' ∧ cs.head? = some '\x7b' := by simpa using hopen
      obtain ⟨cs, rfl⟩ := List.head?_eq_some_iff.mp hhead
      rw [List.drop_one, List.tail_cons] at hcut
      have hturn := readTurn_interpolation seen cs start items
      rw [hcut, ← hsource, ← hoffset] at hturn
      rw [← hoffset]
      exact itemsFrom_error hturn
  | case3 offset c cs hopen body rest hcut interpolation e hinner =>
      rename_i ih
      rw [itemsFrom_interpolation hopen hcut hsource, ih (seen ++ interpolation), hinner]
      · rfl
      · simp [hsource, interpolation, Template.eq_interpolation_append hopen hcut]
      · rw [hoffset, ← Text.bytes_append]
  | case4 offset c cs hopen body rest hcut interpolation region after hinner =>
      rename_i ih
      rw [itemsFrom_interpolation hopen hcut hsource, ih (seen ++ interpolation), hinner]
      · simp [interpolation]
      · simp [hsource, interpolation, Template.eq_interpolation_append hopen hcut]
      · rw [hoffset, ← Text.bytes_append]
  | case5 => simp
  | case6 offset c cs hopen hmarkup e hinner ih =>
      rw [itemsFrom_char (Bool.eq_false_iff.mpr hopen) (Bool.eq_false_iff.mpr hmarkup) hsource,
        ih (seen ++ [c]), hinner]
      · rfl
      · simp [hsource]
      · simp [hoffset]
  | case7 offset c cs hopen hmarkup region after hinner ih =>
      rw [itemsFrom_char (Bool.eq_false_iff.mpr hopen) (Bool.eq_false_iff.mpr hmarkup) hsource,
        ih (seen ++ [c]), hinner]
      · simp
      · simp [hsource]
      · simp [hoffset]

/-! ## The whole template -/

/-- At the end of the template the last region gives its items. -/
theorem itemsFrom_end {source before region : Text} (hsize : Text.bytes source < 2 ^ 32)
    (hsource : source = before ++ region) (items : List Template.Item) :
    itemsFrom source (Text.bytes source, Text.bytes before, items)
      = .ok (items ++ Template.regionItems (Text.bytes before) region) := by
  have hflush := flush_eq before region [] (by rwa [List.append_nil, ← hsource]) items
  have hend : readTurn source (Text.bytes source, Text.bytes before, items)
      = .ok (.inr (Text.bytes before, items)) := by
    rw [readTurn, length_utf8, if_neg (Nat.lt_irrefl _)]
    rfl
  rw [List.append_nil, ← hsource] at hflush
  rw [itemsFrom, iterate_done hend, ok_bind, length_utf8]
  exact hflush

/-- Markup gives its items after those of the region before it. -/
theorem itemsFrom_markup {source before region markup : Text} (hsize : Text.bytes source < 2 ^ 32)
    (hsource : source = before ++ region ++ '<' :: markup)
    (hopens : Template.opensMarkup markup = true) (items : List Template.Item) :
    itemsFrom source (Text.bytes (before ++ region), Text.bytes before, items)
      = faultless (Template.readMarkup (Text.bytes (before ++ region)) markup) >>= fun found =>
        itemsFrom source (Text.bytes source - Text.bytes found.2,
          Text.bytes source - Text.bytes found.2,
          items ++ Template.regionItems (Text.bytes before) region
            ++ found.1.filterMap Template.Attribute.item?) := by
  have hflush := flush_eq before region ('<' :: markup)
    (by rwa [← List.append_assoc, ← hsource]) items
  have hturn := readTurn_markup (before ++ region) hopens (Text.bytes before) items
  have hmarkup := markupAt_eq (by rwa [← hsource])
    (items ++ Template.regionItems (Text.bytes before) region)
  rw [← List.append_assoc, ← hsource] at hflush
  rw [← hsource] at hmarkup
  rw [← hsource, hflush, ok_bind, hmarkup] at hturn
  cases hread : Template.readMarkup (Text.bytes (before ++ region)) markup with
  | error e =>
      rw [hread] at hturn
      exact itemsFrom_error hturn
  | ok found =>
      obtain ⟨attributes, rest⟩ := found
      obtain ⟨taken, htaken, _⟩ := Template.located_readMarkup hread
      have htext : source = before ++ region ++ '<' :: taken ++ rest := by simp [hsource, htaken]
      have hstop : Text.bytes source - Text.bytes rest
          = Text.bytes (before ++ region ++ '<' :: taken) := by
        rw [htext, bytes_append_sub]
      rw [hread] at hturn
      refine itemsFrom_next hturn ?_
      dsimp only
      rw [hstop, hsource]
      exact left_lt (before ++ region) '<' markup taken

/-- The rest of a template, with what stands `before` it, gives its items. -/
theorem itemsFrom_eq {source : Text} (hsize : Text.bytes source < 2 ^ 32) {before t : Text}
    (hsource : source = before ++ t) (items : List Template.Item) :
    itemsFrom source (Text.bytes before, Text.bytes before, items)
      = faultless ((Template.itemsFrom (Text.bytes before) t).map (items ++ ·)) := by
  induction hlength : t.length using Nat.strong_induction_on generalizing before t items with
  | _ n ih =>
      rw [itemsFrom_region before hsource rfl]
      cases hregion : Template.readRegion (Text.bytes before) t with
      | error e =>
          rw [Template.itemsFrom_of_region_error hregion]
          rfl
      | ok found =>
          obtain ⟨region, rest⟩ := found
          obtain rfl := Template.eq_append_of_readRegion hregion
          rw [faultless_ok, ok_bind]
          dsimp only
          rcases Template.endsRegion_of_readRegion hregion with rfl | ⟨markup, rfl, hopens⟩
          · rw [List.append_nil] at hsource
            rw [← hsource, itemsFrom_end hsize hsource, Template.itemsFrom_of_region hregion]
            rfl
          · rw [← List.append_assoc] at hsource
            rw [itemsFrom_markup hsize hsource hopens, Template.itemsFrom_eq_bind hregion,
              ← Text.bytes_append]
            cases hread : Template.readMarkup (Text.bytes (before ++ region)) markup with
            | error e => rfl
            | ok found =>
                obtain ⟨attributes, rest⟩ := found
                obtain ⟨taken, rfl, _⟩ := Template.located_readMarkup hread
                have htext : source = before ++ region ++ '<' :: taken ++ rest := by simp [hsource]
                have hstop : Text.bytes source - Text.bytes rest
                    = Text.bytes (before ++ region ++ '<' :: taken) := by
                  rw [htext, bytes_append_sub]
                have hwidth : Text.bytes (before ++ region)
                    + (Text.bytes ('<' :: (taken ++ rest)) - Text.bytes rest)
                    = Text.bytes (before ++ region ++ '<' :: taken) := by
                  rw [← List.cons_append, bytes_append_sub, ← Text.bytes_append]
                have hshorter : rest.length < n := by
                  simp only [List.length_append, List.length_cons] at hlength
                  omega
                rw [faultless_ok, ok_bind, Except.bind]
                dsimp only
                rw [hstop, hwidth, ih rest.length hshorter htext _ rfl]
                cases Template.itemsFrom (Text.bytes (before ++ region ++ '<' :: taken)) rest with
                | error e => rfl
                | ok after => simp [Except.map]

/-- Reading by offsets gives the items of a template, or refuses it, and never faults. -/
theorem items_eq {source : Text} (hsize : Text.bytes source < 2 ^ 32) :
    items source = faultless (Template.items source) := by
  have hread := @itemsFrom_eq source hsize [] source rfl []
  rw [items, Template.items]
  cases htemplate : Template.itemsFrom 0 source with
  | error e => simpa [htemplate, Except.map] using hread
  | ok found => simpa [htemplate, Except.map] using hread

end KeyLint.Cursor
