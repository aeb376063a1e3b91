import KeyLint.Proofs.Cursor.Regions
import KeyLint.Proofs.Template.Prefixes

/-!
# Markup by offsets

Every reader here begins at an offset of the source and says at which offset it ends. The items of a
tag's attributes are added to those found before.
-/

namespace KeyLint.Cursor

/-! ## Attributes -/

/-- The name of an attribute ends at an offset. -/
def endsNameAt (bs : Octets) (i : Nat) : Checked Bool := do
  let b ← byteAt bs i
  if b = '/' then pure (bs[i + 1]? = some '>') else pure (Template.endsName b)

def nameTurn (bs : Octets) (i : Nat) : Checked (Nat ⊕ Nat) :=
  if i < bs.length then do
    let ends ← endsNameAt bs i
    if ends then pure (.inr i) else pure (.inl (i + 1))
  else pure (.inr i)

/-- The end of the name of an attribute. -/
def nameEnd (bs : Octets) (start : Nat) : Checked Nat :=
  iterate (fun i => bs.length - i) (nameTurn bs) start

/-- A byte of a value without quotes. -/
def isUnquoted (b : Char) : Bool :=
  !Text.isAsciiBlank b && b ≠ '>'

/-- The value at an offset and the offset of its end. The attribute begins at `start`. -/
def valueAt (source : Text) (start i : Nat) : Checked (Text × Nat) :=
  match (utf8 source)[i]?.filter fun b => b = '"' || b = '\'' with
  | some quote => do
    let rest ← octetsBetween (utf8 source) (i + 1) (utf8 source).length
    match rest.findIdx? (· = quote) with
    | some k =>
      let value ← textBetween source (i + 1) (i + 1 + k)
      pure (value, i + 1 + k + 1)
    | none => .error (.refused (.unterminatedAttribute start))
  | none => do
    let stop ← skipWhile isUnquoted (utf8 source) i
    let value ← textBetween source i stop
    pure (value, stop)

/-- What follows the name of an attribute: its value and the offset of its end. -/
def assignmentAt (source : Text) (start i : Nat) : Checked (Text × Nat) := do
  let equals ← skipWhile Text.isAsciiBlank (utf8 source) i
  if (utf8 source)[equals]? = some '=' then
    let value ← skipWhile Text.isAsciiBlank (utf8 source) (equals + 1)
    valueAt source start value
  else pure ([], i)

/-- The item that an attribute gives, if any. -/
def classify (name value : Text) (span : Span) : Checked (Option Template.Item) :=
  match Template.bindingName? name with
  | some inner => pure (some (.boundAttribute (Template.boundName inner) value span))
  | none =>
    if Template.skippedStarts.any fun start => start.isPrefixOf name then pure none
    else
      match Text.after? ['*'] name with
      | some inner => pure (some (.textAttribute inner value true span))
      | none =>
        if Text.occursIn "\x7b\x7b".toList value then
          pure (some (.boundAttribute (Template.boundName name) value span))
        else do
          let value ← decodeEntities value
          pure (some (.textAttribute name value false span))

/-- The attribute at an offset: the offset of its end and the item that it gives. -/
def attributeAt (source : Text) (start : Nat) : Checked (Nat × List Template.Item) := do
  let stop ← nameEnd (utf8 source) start
  if stop = start then pure (start + 1, [])
  else
    let (value, valueStop) ← assignmentAt source start stop
    let name ← textBetween source start stop
    let item? ← classify name value ⟨narrow start, narrow valueStop⟩
    pure (valueStop, item?.toList)

/-! ### What is read -/

theorem isAscii_of_endsName {c : Char} (h : Template.endsName c = true) : IsAscii c := by
  simp only [Template.endsName, Text.isAsciiBlank, Bool.or_eq_true, decide_eq_true_eq] at h
  rcases h with (((rfl | rfl) | rfl) | rfl) | (((rfl | rfl) | rfl) | rfl) | rfl <;> decide

theorem isByteClass_endsName : IsByteClass Template.endsName :=
  .of_isAscii fun _ => isAscii_of_endsName

theorem isByteClass_isUnquoted : IsByteClass isUnquoted := by
  intro c d hc hd
  have hother : ∀ {x : Char}, ¬ IsAscii x → x ≠ '>' := by
    rintro x hx rfl
    exact hx (by decide)
  simp [isUnquoted, isByteClass_isAsciiBlank c d hc hd, hother hc, hother hd]

/-- A name ends before a character if it ends at its first byte. -/
theorem endsNameAt_eq (s : Text) (c : Char) (t : Text) :
    endsNameAt (utf8 (s ++ c :: t)) (Text.bytes s)
      = .ok (Template.endsName c || (c = '/' && t.head? = some '>')) := by
  rw [endsNameAt, byteAt_lead, ok_bind, isByteClass_endsName.lead_eq]
  by_cases hslash : c = '/'
  · subst hslash
    have hnext := getElem?_eq_some_iff (s ++ ['/']) t (show IsAscii '>' by decide)
    rw [bytes_append_singleton s (by decide), List.append_assoc, List.singleton_append] at hnext
    rw [if_pos (lead_of_isAscii (by decide))]
    simp [hnext, Template.endsName, Text.isAsciiBlank]
  · rw [if_neg ((lead_eq_iff (by decide)).not.mpr hslash)]
    simp [hslash]

/-- A name does not end within a character that it does not end before. -/
theorem nameTurn_within (s : Text) {c : Char} {t : Text} {k : Nat} (hk : k < c.utf8Size)
    (h : (Template.endsName c || (c = '/' && t.head? = some '>')) = false) :
    nameTurn (utf8 (s ++ c :: t)) (Text.bytes s + k) = .ok (.inl (Text.bytes s + k + 1)) := by
  have hends : endsNameAt (utf8 (s ++ c :: t)) (Text.bytes s + k) = .ok false := by
    by_cases hc : IsAscii c
    · rw [utf8Size_of_isAscii hc] at hk
      obtain rfl := Nat.lt_one_iff.mp hk
      rw [Nat.add_zero, endsNameAt_eq, h]
    · obtain ⟨b, hget, hb⟩ := exists_getElem?_of_not_isAscii s hc t hk
      have hslash : b ≠ '/' := by
        rintro rfl
        exact hb (by decide)
      rw [Bool.or_eq_false_iff, isByteClass_endsName c b hc hb] at h
      rw [endsNameAt, byteAt, hget, ok_bind, if_neg hslash, h.1]
      rfl
  have hlt : Text.bytes s + k < (utf8 (s ++ c :: t)).length := by
    simp only [length_utf8, Text.bytes_append, Text.bytes_cons]
    omega
  rw [nameTurn, if_pos hlt, hends]
  rfl

theorem nameEnd_eq (s t : Text) :
    nameEnd (utf8 (s ++ t)) (Text.bytes s) = .ok (Text.bytes (s ++ (Template.readName t).1)) := by
  induction t generalizing s with
  | nil =>
      refine iterate_done ?_
      rw [nameTurn, if_neg (by simp)]
      simp [Template.readName]
  | cons c t ih =>
      rw [Template.readName]
      by_cases hends : (Template.endsName c || (c = '/' && t.head? = some '>')) = true
      · rw [if_pos hends, List.append_nil]
        refine iterate_done ?_
        rw [nameTurn, if_pos (bytes_lt_length_utf8 s c t), endsNameAt_eq, hends]
        rfl
      · have hskip : nameEnd (utf8 (s ++ c :: t)) (Text.bytes s)
            = nameEnd (utf8 (s ++ c :: t)) (Text.bytes (s ++ [c])) :=
          iterate_char id (fun _ => rfl) s c (by simp)
            fun k hk => nameTurn_within s hk (Bool.eq_false_iff.mpr hends)
        rw [hskip, if_neg hends, List.append_cons s c t, ih (s ++ [c]), List.append_assoc,
          List.singleton_append]

theorem valueAt_quoted {quote : Char} (hquote : quote = '"' ∨ quote = '\'') (start : Nat)
    (s t : Text) :
    valueAt (s ++ quote :: t) start (Text.bytes s)
      = match Text.cut? [quote] t with
        | some (value, _) => .ok (value, Text.bytes (s ++ quote :: value ++ [quote]))
        | none => .error (.refused (.unterminatedAttribute start)) := by
  have hascii : IsAscii quote := by rcases hquote with rfl | rfl <;> decide
  have hrest := octetsBetween_end (s ++ [quote]) t
  rw [bytes_append_singleton s hascii, List.append_assoc, List.singleton_append] at hrest
  rw [valueAt, getElem?_lead, lead_of_isAscii hascii, Option.filter_some_pos (by simpa using hquote)]
  dsimp only
  rw [hrest, ok_bind, findIdx?_utf8 hascii]
  cases hcut : Text.cut? [quote] t with
  | none => rfl
  | some found =>
      obtain ⟨value, rest⟩ := found
      have ht := Text.eq_append_of_cut?_eq_some hcut
      have hslice := textBetween_append (s ++ [quote]) value (quote :: rest)
      have hclose : Text.bytes (s ++ quote :: value ++ [quote])
          = Text.bytes s + 1 + Text.bytes value + 1 := by
        rw [bytes_append_singleton _ hascii, List.append_cons, Text.bytes_append _ value,
          bytes_append_singleton s hascii]
      rw [Text.bytes_append _ value, bytes_append_singleton s hascii, List.append_assoc,
        List.singleton_append] at hslice
      rw [List.append_assoc, List.singleton_append] at ht
      simp only [Option.map_some, ht, hslice, ok_bind, hclose]
      rfl

theorem valueAt_eq (start : Nat) (s t : Text) :
    valueAt (s ++ t) start (Text.bytes s)
      = match Template.readValue? t with
        | some (value, _) => .ok (value.text, Text.bytes (s ++ value.written))
        | none => .error (.refused (.unterminatedAttribute start)) := by
  by_cases hquoted : ∃ quote cs, t = quote :: cs ∧ (quote = '"' ∨ quote = '\'')
  · obtain ⟨quote, cs, rfl, hquote⟩ := hquoted
    rw [valueAt_quoted hquote]
    rcases hquote with rfl | rfl
    · rw [Template.readValue?]
      cases Text.cut? ['"'] cs <;> simp
    · rw [Template.readValue?]
      cases Text.cut? ['\''] cs <;> simp
  · have hhead : ∀ c ∈ t.head?, c ≠ '"' ∧ c ≠ '\'' := by
      intro c hc
      obtain ⟨cs, rfl⟩ := List.head?_eq_some_iff.mp hc
      rw [← not_or]
      exact fun hquote => hquoted ⟨c, cs, rfl, hquote⟩
    have hnone : ((utf8 (s ++ t))[Text.bytes s]?.filter fun b => b = '"' || b = '\'') = none := by
      refine Option.filter_eq_none_iff.mpr fun b hb => ?_
      rw [Bool.or_eq_true, decide_eq_true_eq, decide_eq_true_eq]
      rintro (rfl | rfl)
      · exact (hhead _ ((getElem?_eq_some_iff s t (by decide)).mp hb)).1 rfl
      · exact (hhead _ ((getElem?_eq_some_iff s t (by decide)).mp hb)).2 rfl
    have hslice := textBetween_append s (t.takeWhile isUnquoted) (t.dropWhile isUnquoted)
    rw [List.takeWhile_append_dropWhile] at hslice
    rw [valueAt, hnone]
    dsimp only
    rw [skipWhile_utf8 isByteClass_isUnquoted, ok_bind, hslice, ok_bind,
      Template.readValue?_unquoted hhead]
    rfl

/-- The value of an attribute ends where what is left after it begins. -/
theorem assignmentAt_eq (start : Nat) (s t : Text) :
    assignmentAt (s ++ t) start (Text.bytes s)
      = match Template.readAssignment? t with
        | some (value, width, _) => .ok (value, Text.bytes s + width)
        | none => .error (.refused (.unterminatedAttribute start)) := by
  have ht : t.takeWhile Text.isAsciiBlank ++ t.dropWhile Text.isAsciiBlank = t :=
    List.takeWhile_append_dropWhile
  have hget := getElem?_eq_some_iff (s ++ t.takeWhile Text.isAsciiBlank)
    (t.dropWhile Text.isAsciiBlank) (show IsAscii '=' by decide)
  rw [List.append_assoc, ht] at hget
  rw [assignmentAt, skipWhile_utf8 isByteClass_isAsciiBlank, ok_bind]
  by_cases hhead : (t.dropWhile Text.isAsciiBlank).head? = some '='
  · obtain ⟨cs, hdrop⟩ := List.head?_eq_some_iff.mp hhead
    have hassign : Template.readAssignment? t
        = (Template.readValue? (cs.dropWhile Text.isAsciiBlank)).map fun found =>
          (found.1.text, Text.bytes (t.takeWhile Text.isAsciiBlank) + 1
            + Text.bytes (cs.takeWhile Text.isAsciiBlank) + Text.bytes found.1.written, found.2) := by
      rw [Template.readAssignment?, hdrop]
      rfl
    rw [if_pos (hget.mpr hhead), hassign]
    rw [hdrop] at ht
    generalize t.takeWhile Text.isAsciiBlank = blanks at *
    have htext : s ++ t = s ++ blanks ++ ['='] ++ cs := by simp [← ht]
    rw [htext, ← bytes_append_singleton _ (show IsAscii '=' by decide),
      skipWhile_utf8 isByteClass_isAsciiBlank, ok_bind]
    have hvalue := valueAt_eq start (s ++ blanks ++ ['='] ++ cs.takeWhile Text.isAsciiBlank)
      (cs.dropWhile Text.isAsciiBlank)
    rw [List.append_assoc _ (cs.takeWhile Text.isAsciiBlank), List.takeWhile_append_dropWhile]
      at hvalue
    rw [hvalue]
    cases Template.readValue? (cs.dropWhile Text.isAsciiBlank) with
    | none => rfl
    | some found =>
        have hequals : '='.utf8Size = 1 := rfl
        simp [hequals, Nat.add_assoc]
  · have hassign : Template.readAssignment? t = some ([], 0, t) := by
      rw [Template.readAssignment?]
      split
      · next hdrop => exact absurd (by rw [hdrop]; rfl) hhead
      · rfl
    rw [if_neg fun hyes => hhead (hget.mp hyes), hassign]
    rfl

theorem classify_eq (name value : Text) (span : Span) :
    classify name value span = .ok (Template.classify? name value span) := by
  unfold classify Template.classify?
  cases Template.bindingName? name with
  | some inner => rfl
  | none =>
      dsimp only
      split
      · rfl
      · cases hstar : Text.after? ['*'] name with
        | some inner =>
            obtain rfl := Text.eq_append_of_after?_eq_some hstar
            rfl
        | none =>
            have hother : ∀ inner, name ≠ '*' :: inner := by
              rintro inner rfl
              exact Text.after?_eq_none_iff.mp hstar (List.prefix_append ['*'] inner)
            rw [decodeEntities_eq, ok_bind]
            dsimp only
            split <;> split
            · exact absurd rfl (hother _)
            · rfl
            · exact absurd rfl (hother _)
            · rfl

theorem isAscii_of_readName {c : Char} {t rest : Text}
    (h : Template.readName (c :: t) = ([], rest)) : IsAscii c := by
  rw [Template.readName] at h
  split at h
  · next hends =>
      rcases Bool.or_eq_true _ _ ▸ hends with hends | hslash
      · exact isAscii_of_endsName hends
      · obtain ⟨rfl, _⟩ : c = '/' ∧ t.head? = some '>' := by simpa using hslash
        decide
  · cases h

/-- An attribute gives its item and ends where what is left after it begins. -/
theorem attributeAt_eq (s : Text) (c : Char) (t : Text)
    (hsize : Text.bytes (s ++ c :: t) < 2 ^ 32) :
    attributeAt (s ++ c :: t) (Text.bytes s)
      = faultless ((Template.readAttribute (Text.bytes s) (c :: t)).map fun found =>
          (Text.bytes (s ++ c :: t) - Text.bytes found.2,
            found.1.toList.filterMap Template.Attribute.item?)) := by
  have hsplit := Template.eq_append_readName (c :: t)
  rw [attributeAt, nameEnd_eq, ok_bind, Template.readAttribute]
  cases hread : Template.readName (c :: t) with
  | mk name rest =>
      rw [hread] at hsplit
      cases name with
      | nil =>
          have hc := utf8Size_of_isAscii (isAscii_of_readName hread)
          have hstop : Text.bytes s + 1 = Text.bytes (s ++ c :: t) - Text.bytes t := by
            simp only [Text.bytes_append, Text.bytes_cons, hc]
            omega
          rw [if_pos (by simp), hstop]
          rfl
      | cons a name =>
          have hne : Text.bytes (s ++ a :: name) ≠ Text.bytes s := by
            have hpos := a.utf8Size_pos
            simp only [Text.bytes_append, Text.bytes_cons]
            omega
          have hassign := assignmentAt_eq (Text.bytes s) (s ++ a :: name) rest
          have hslice := textBetween_append s (a :: name) rest
          dsimp only at hsplit
          rw [List.append_assoc, ← hsplit] at hassign
          rw [← hsplit] at hslice
          dsimp only
          rw [if_neg hne, hassign]
          cases hvalue : Template.readAssignment? rest with
          | none => rfl
          | some found =>
              obtain ⟨value, width, after⟩ := found
              obtain ⟨assignment, hrest, rfl, _⟩ :=
                @Template.writtenAttribute_readAssignment? [] _ _ _ _ hvalue
              have hbytes : Text.bytes (s ++ c :: t)
                  = Text.bytes (s ++ a :: name) + Text.bytes assignment + Text.bytes after := by
                rw [hsplit, hrest, ← List.append_assoc, ← List.append_assoc, Text.bytes_append _ after,
                  Text.bytes_append _ assignment]
              have hstart : Text.bytes s ≤ Text.bytes (s ++ a :: name) := by simp
              have hstop : Text.bytes s + Text.bytes (a :: name) + Text.bytes assignment
                  = Text.bytes (s ++ a :: name) + Text.bytes assignment := by
                rw [Text.bytes_append]
              dsimp only
              rw [ok_bind]
              dsimp only
              rw [hslice, ok_bind, classify_eq, ok_bind, narrow_of_lt (by omega),
                narrow_of_lt (by omega), hstop]
              simp only [Except.map, faultless_ok, hbytes, Nat.add_sub_cancel, Option.toList_some,
                filterMap_cons_toList, List.filterMap_nil, List.append_nil]
              rfl

/-! ## Start tags -/

/-- What a turn of the loop over a start tag ends with: the offset and the items found, and at the end
of the tag whether it closes its element itself. -/
abbrev TagTurn := (Nat × List Template.Item) ⊕ (Nat × List Template.Item × Bool)

/-- A turn after the blanks. -/
def tagTurnAt (source : Text) (unclosed : Template.Error) (items : List Template.Item) (i : Nat) :
    Checked TagTurn :=
  match (utf8 source)[i]? with
  | none => .error (.refused unclosed)
  | some b =>
    if b = '>' then pure (.inr (i + 1, items, false))
    else if b = '/' then
      if (utf8 source)[i + 1]? = some '>' then pure (.inr (i + 2, items, true))
      else pure (.inl (i + 1, items))
    else do
      let (i, found) ← attributeAt source i
      pure (.inl (i, items ++ found))

def tagTurn (source : Text) (unclosed : Template.Error) :
    Nat × List Template.Item → Checked TagTurn
  | (i, items) => do
    let i ← skipWhile Text.isAsciiBlank (utf8 source) i
    tagTurnAt source unclosed items i

/-- The end of the content of a raw element, which begins at an offset. -/
def rawContentEnd (source : Text) (raw : Text) (i : Nat) : Checked Nat := do
  let rest ← textBetween source i (Text.bytes source)
  match find? ("</".toList ++ raw) (rest.map Text.toSmallAscii) with
  | some k => pure (i + k)
  | none => pure (utf8 source).length

def startTagAt (source : Text) (start : Nat) (items : List Template.Item) :
    Checked (Nat × List Template.Item) := do
  let i ← skipWhile Template.isTagNameChar (utf8 source) (start + 1)
  let name ← textBetween source (start + 1) i
  let (i, items, selfClosing) ← iterate (fun state => (utf8 source).length - state.1)
    (tagTurn source (.unterminatedTag name start)) (i, items)
  if selfClosing then pure (i, items)
  else
    match Template.rawElements.find? fun raw => Text.eqIgnoringAsciiCase raw name with
    | some raw =>
      let i ← rawContentEnd source raw i
      pure (i, items)
    | none => pure (i, items)

/-- The markup at an offset: the offset of its end, and the items with those of its attributes. -/
def markupAt (source : Text) (start : Nat) (items : List Template.Item) :
    Checked (Nat × List Template.Item) := do
  let rest ← octetsBetween (utf8 source) start (utf8 source).length
  if "<!--".toList.isPrefixOf rest then
    match findFrom? source (start + 4) "-->".toList with
    | some close => pure (close + 3, items)
    | none => .error (.refused (.unterminatedComment start))
  else if "<!".toList.isPrefixOf rest || "</".toList.isPrefixOf rest then
    match findFrom? source start ">".toList with
    | some close => pure (close + 1, items)
    | none =>
      let name ← textBetween source (start + 1) (Text.bytes source)
      .error (.refused (.unterminatedTag (name.take Template.maxUnclosedName) start))
  else startTagAt source start items

/-! ### Where they end -/

theorem tagTurnAt_end (s t : Text) (unclosed : Template.Error) (items : List Template.Item) :
    tagTurnAt (s ++ '>' :: t) unclosed items (Text.bytes s)
      = .ok (.inr (Text.bytes (s ++ ['>']), items, false)) := by
  rw [tagTurnAt, getElem?_lead, lead_of_isAscii (by decide), bytes_append_singleton s (by decide)]
  rfl

theorem tagTurnAt_slash (s t : Text) (unclosed : Template.Error) (items : List Template.Item) :
    tagTurnAt (s ++ '/' :: t) unclosed items (Text.bytes s)
      = .ok (if t.head? = some '>' then .inr (Text.bytes (s ++ "/>".toList), items, true)
          else .inl (Text.bytes (s ++ ['/']), items)) := by
  have hslash : lead '/' = '/' := lead_of_isAscii (by decide)
  have hnext := getElem?_eq_some_iff (s ++ ['/']) t (show IsAscii '>' by decide)
  have hend : Text.bytes s + 2 = Text.bytes (s ++ "/>".toList) := (Text.bytes_append s "/>".toList).symm
  rw [bytes_append_singleton s (by decide), List.append_assoc, List.singleton_append] at hnext
  rw [tagTurnAt, getElem?_lead, hslash, bytes_append_singleton s (by decide)]
  by_cases hhead : t.head? = some '>'
  · simp only [hnext.mpr hhead, hhead, ↓reduceIte, hend]
    rfl
  · simp only [hnext, hhead, ↓reduceIte]
    rfl

theorem tagTurnAt_attribute (s : Text) {c : Char} (t : Text) (hend : c ≠ '>') (hslash : c ≠ '/')
    (unclosed : Template.Error) (items : List Template.Item)
    (hsize : Text.bytes (s ++ c :: t) < 2 ^ 32) :
    tagTurnAt (s ++ c :: t) unclosed items (Text.bytes s)
      = faultless ((Template.readAttribute (Text.bytes s) (c :: t)).map fun found =>
          .inl (Text.bytes (s ++ c :: t) - Text.bytes found.2,
            items ++ found.1.toList.filterMap Template.Attribute.item?)) := by
  rw [tagTurnAt, getElem?_lead]
  dsimp only
  rw [if_neg ((lead_eq_iff (by decide)).not.mpr hend),
    if_neg ((lead_eq_iff (by decide)).not.mpr hslash), attributeAt_eq s c t hsize]
  cases Template.readAttribute (Text.bytes s) (c :: t) <;> rfl

/-- What is known at the end of a start tag: its offset, the items and whether the tag closes its
element itself. -/
def tagResult (source : Text) (items : List Template.Item) (body : Template.TagBody) :
    Nat × List Template.Item × Bool :=
  (Text.bytes source - Text.bytes body.rest,
    items ++ body.attributes.filterMap Template.Attribute.item?, body.selfClosing)

theorem tagResult_nil (s t : Text) (items : List Template.Item) (selfClosing : Bool) :
    tagResult (s ++ t) items ⟨[], selfClosing, t⟩ = (Text.bytes s, items, selfClosing) := by
  rw [tagResult, bytes_append_sub, List.filterMap_nil, List.append_nil]

theorem tagResult_append (source : Text) (items : List Template.Item)
    (attributes : List Template.Attribute) (body : Template.TagBody) :
    tagResult source (items ++ attributes.filterMap Template.Attribute.item?) body
      = tagResult source items { body with attributes := attributes ++ body.attributes } := by
  simp [tagResult]

/-- A turn after the blanks ends the loop as the tag ends, or it passes a part of the tag. -/
theorem tagTurnAt_cases {source : Text} (hsize : Text.bytes source < 2 ^ 32) {s t : Text}
    (hsource : source = s ++ t) (hblank : ∀ c ∈ t.head?, Text.isAsciiBlank c = false)
    (unclosed : Template.Error) (items : List Template.Item) :
    tagTurnAt source unclosed items (Text.bytes s)
        = faultless ((Template.readTagBody unclosed (Text.bytes s) t).map
          fun body => .inr (tagResult source items body)) ∨
      ∃ taken after attributes, t = taken ++ after ∧ taken ≠ [] ∧
        tagTurnAt source unclosed items (Text.bytes s)
          = .ok (.inl (Text.bytes (s ++ taken),
            items ++ attributes.filterMap Template.Attribute.item?)) ∧
        Template.readTagBody unclosed (Text.bytes s) t
          = (Template.readTagBody unclosed (Text.bytes (s ++ taken)) after).map
            fun body => { body with attributes := attributes ++ body.attributes } := by
  subst hsource
  cases t with
  | nil =>
      left
      rw [List.append_nil, tagTurnAt, getElem?_end, Template.readTagBody]
      rfl
  | cons c cs =>
      by_cases hend : c = '>'
      · left
        subst hend
        have hread : Template.readTagBody unclosed (Text.bytes s) ('>' :: cs) = .ok ⟨[], false, cs⟩ :=
          Template.readTagBody_tagEnd unclosed _ false cs
        rw [hread, tagTurnAt_end, List.append_cons s '>' cs, Except.map, faultless_ok, tagResult_nil]
      by_cases hslash : c = '/'
      · subst hslash
        rw [tagTurnAt_slash]
        by_cases hself : cs.head? = some '>'
        · left
          obtain ⟨cs, rfl⟩ := List.head?_eq_some_iff.mp hself
          have hread : Template.readTagBody unclosed (Text.bytes s) ('/' :: '>' :: cs)
              = .ok ⟨[], true, cs⟩ :=
            Template.readTagBody_tagEnd unclosed _ true cs
          have htext : s ++ '/' :: '>' :: cs = s ++ "/>".toList ++ cs := by simp
          rw [if_pos hself, hread, htext, Except.map, faultless_ok, tagResult_nil]
        · right
          refine ⟨['/'], cs, [], rfl, by simp, by simp [hself], ?_⟩
          rw [Template.readTagBody_slash hself, bytes_append_singleton s (by decide)]
          cases Template.readTagBody unclosed (Text.bytes s + 1) cs <;> rfl
      · rw [tagTurnAt_attribute s cs hend hslash unclosed items hsize,
          Template.readTagBody_attribute_eq (hblank c rfl) hend hslash]
        cases hread : Template.readAttribute (Text.bytes s) (c :: cs) with
        | error e => exact .inl rfl
        | ok found =>
            right
            obtain ⟨attribute?, after⟩ := found
            obtain ⟨taken, htaken, _⟩ := Template.located_readAttribute hread
            have hshorter := Template.length_readAttribute_lt (List.cons_ne_nil c cs) hread
            refine ⟨taken, after, attribute?.toList, htaken, ?_, ?_, ?_⟩
            · rintro rfl
              rw [htaken] at hshorter
              exact absurd hshorter (Nat.lt_irrefl _)
            · rw [htaken, ← List.append_assoc, Except.map, faultless_ok, bytes_append_sub]
            · rw [Except.bind, htaken, bytes_append_sub, ← Text.bytes_append]

/-- The rest of a start tag gives the items of its attributes. -/
theorem iterate_tagTurn {source : Text} (hsize : Text.bytes source < 2 ^ 32)
    (unclosed : Template.Error) {s t : Text} (hsource : source = s ++ t)
    (items : List Template.Item) :
    iterate (fun state => (utf8 source).length - state.1) (tagTurn source unclosed)
        (Text.bytes s, items)
      = faultless ((Template.readTagBody unclosed (Text.bytes s) t).map (tagResult source items)) := by
  induction hlength : t.length using Nat.strong_induction_on generalizing s t items with
  | _ n ih =>
      have ht : t.takeWhile Text.isAsciiBlank ++ t.dropWhile Text.isAsciiBlank = t :=
        List.takeWhile_append_dropWhile
      have hblanks : ∀ c ∈ t.takeWhile Text.isAsciiBlank, Text.isAsciiBlank c = true :=
        fun _ => List.mem_takeWhile_imp
      have hhead : ∀ c ∈ (t.dropWhile Text.isAsciiBlank).head?, Text.isAsciiBlank c = false :=
        fun _ => Text.eq_false_of_head?_dropWhile
      have hturn : tagTurn source unclosed (Text.bytes s, items)
          = tagTurnAt source unclosed items (Text.bytes (s ++ t.takeWhile Text.isAsciiBlank)) := by
        rw [tagTurn, hsource, skipWhile_utf8 isByteClass_isAsciiBlank, ok_bind]
      generalize t.takeWhile Text.isAsciiBlank = blanks at *
      generalize t.dropWhile Text.isAsciiBlank = rest at *
      subst ht
      rw [← List.append_assoc] at hsource
      rw [Template.readTagBody_blanks unclosed hblanks, ← Text.bytes_append]
      rcases tagTurnAt_cases hsize hsource hhead unclosed items with
        hdone | ⟨taken, after, attributes, rfl, hne, hnext, hread⟩
      · rw [← hturn] at hdone
        cases hread : Template.readTagBody unclosed (Text.bytes (s ++ blanks)) rest with
        | error e => exact iterate_error (by rw [hdone, hread]; rfl)
        | ok body => exact iterate_done (by rw [hdone, hread]; rfl)
      · rw [← hturn] at hnext
        have hless : (utf8 source).length - Text.bytes (s ++ blanks ++ taken)
            < (utf8 source).length - Text.bytes s := by
          have hpos := Text.bytes_pos_of_ne_nil hne
          simp only [hsource, length_utf8, Text.bytes_append]
          omega
        have hshorter : after.length < n := by
          have hpos := List.length_pos_iff.mpr hne
          simp only [List.length_append] at hlength
          omega
        rw [iterate_next hnext hless, ih after.length hshorter (by simp [hsource]) _ rfl, hread]
        cases Template.readTagBody unclosed (Text.bytes (s ++ blanks ++ taken)) after with
        | error e => rfl
        | ok body => simp only [Except.map, tagResult_append]

theorem isByteClass_isTagNameChar : IsByteClass Template.isTagNameChar := by
  refine .of_isAscii fun c hc => ?_
  simp only [Template.isTagNameChar, Text.isAsciiAlnum, Text.isAsciiDigit, Bool.or_eq_true,
    Bool.and_eq_true, decide_eq_true_eq] at hc
  rcases hc with ((((hletter | ⟨_, hlast⟩) | rfl) | rfl) | rfl) | rfl
  · exact isAscii_of_isAsciiLetter hletter
  · exact isAscii_of_le (by decide) hlast
  all_goals decide

theorem utf8Size_toSmallAscii (c : Char) : (Text.toSmallAscii c).utf8Size = c.utf8Size := by
  rw [Text.toSmallAscii]
  split
  · next hcapital =>
      obtain ⟨_, hlast⟩ : 'A' ≤ c ∧ c ≤ 'Z' := by simpa using hcapital
      have hle : c.toNat ≤ 90 := hlast
      have hsmall : IsAscii (Char.ofNat (c.toNat + 32)) := by
        rw [Char.ofNat, dif_pos (Or.inl (by omega))]
        exact Nat.lt_of_le_of_lt (Nat.add_le_add_right hle 32) (by decide)
      rw [utf8Size_of_isAscii (isAscii_of_le (by decide) hlast), utf8Size_of_isAscii hsmall]
  · rfl

theorem startsIgnoringCase_eq (word t : Text) :
    Template.startsIgnoringCase word t
      = (Text.after? word (t.map Text.toSmallAscii)).isSome := by
  induction word generalizing t with
  | nil => simp [Template.startsIgnoringCase, Text.after?]
  | cons letter word ih =>
      cases t with
      | nil => rfl
      | cons c t =>
          rw [Template.startsIgnoringCase, ih, List.map_cons, Text.after?]
          by_cases hc : Text.toSmallAscii c = letter
          · simp [hc]
          · simp [hc, Ne.symm hc]

/-- A word is found in small letters where the search in any case of letters stops. -/
theorem find?_map_toSmallAscii (word t : Text) :
    (find? word (t.map Text.toSmallAscii)).getD (Text.bytes t)
      = Text.bytes t - Text.bytes (Template.skipTo word t) := by
  induction t with
  | nil =>
      rw [find?, List.map_nil, Text.cut?]
      split <;> rfl
  | cons c t ih =>
      rw [find?] at ih
      rw [find?, List.map_cons, Text.cut?, Template.skipTo, startsIgnoringCase_eq, List.map_cons]
      cases Text.after? word (Text.toSmallAscii c :: t.map Text.toSmallAscii) with
      | some rest => simp
      | none =>
          obtain ⟨content, hcontent⟩ := Template.skipTo_suffix word t
          have hbytes := congrArg Text.bytes hcontent
          rw [Text.bytes_append] at hbytes
          simp only [Option.isSome_none, Bool.false_eq_true, ↓reduceIte, Text.bytes_cons]
          cases hcut : Text.cut? word (t.map Text.toSmallAscii) with
          | none =>
              rw [hcut] at ih
              simp at ih ⊢
              omega
          | some found =>
              rw [hcut] at ih
              simp [utf8Size_toSmallAscii] at ih ⊢
              omega

theorem rawContentEnd_eq (raw s t : Text) :
    rawContentEnd (s ++ t) raw (Text.bytes s)
      = .ok (Text.bytes (s ++ t) - Text.bytes (Template.skipTo ("</".toList ++ raw) t)) := by
  have hfind := find?_map_toSmallAscii ("</".toList ++ raw) t
  obtain ⟨content, hcontent⟩ := Template.skipTo_suffix ("</".toList ++ raw) t
  have hbytes := congrArg Text.bytes hcontent
  rw [Text.bytes_append] at hbytes
  have hstop : Text.bytes (s ++ t) - Text.bytes (Template.skipTo ("</".toList ++ raw) t)
      = Text.bytes s + (find? ("</".toList ++ raw) (t.map Text.toSmallAscii)).getD
        (Text.bytes t) := by
    rw [hfind, Text.bytes_append]
    omega
  rw [rawContentEnd, textBetween_end, ok_bind, hstop]
  cases find? ("</".toList ++ raw) (t.map Text.toSmallAscii) with
  | none => simp
  | some k => rfl

/-- A start tag gives the items of its attributes and ends, with the content of a raw element, where
what is left after it begins. -/
theorem startTagAt_eq {s t : Text} (hsize : Text.bytes (s ++ '<' :: t) < 2 ^ 32)
    (hbang : t.head? ≠ some '!') (hslash : t.head? ≠ some '/') (items : List Template.Item) :
    startTagAt (s ++ '<' :: t) (Text.bytes s) items
      = faultless ((Template.readMarkup (Text.bytes s) t).map fun found =>
          (Text.bytes (s ++ '<' :: t) - Text.bytes found.2,
            items ++ found.1.filterMap Template.Attribute.item?)) := by
  have ht : t.takeWhile Template.isTagNameChar ++ t.dropWhile Template.isTagNameChar = t :=
    List.takeWhile_append_dropWhile
  have hskip := skipWhile_utf8 isByteClass_isTagNameChar (s ++ ['<']) t
  have hslice := textBetween_append (s ++ ['<']) (t.takeWhile Template.isTagNameChar)
    (t.dropWhile Template.isTagNameChar)
  rw [Template.readMarkup_startTag_eq hbang hslash]
  rw [ht] at hslice
  rw [startTagAt, ← bytes_append_singleton s (show IsAscii '<' by decide),
    List.append_cons s '<' t, hskip, ok_bind, hslice, ok_bind]
  generalize t.takeWhile Template.isTagNameChar = name at *
  generalize t.dropWhile Template.isTagNameChar = rest at *
  subst ht
  rw [List.append_cons, ← List.append_assoc] at hsize
  have htag := iterate_tagTurn hsize (.unterminatedTag name (Text.bytes s)) rfl items
  rw [← List.append_assoc, htag, Text.bytes_append _ name, bytes_append_singleton s (by decide)]
  cases hbody : Template.readTagBody (.unterminatedTag name (Text.bytes s))
      (Text.bytes s + 1 + Text.bytes name) rest with
  | error e => rfl
  | ok body =>
      obtain ⟨taken, htaken, _⟩ := Template.located_readTagBody hbody
      have htext : s ++ ['<'] ++ name ++ rest = s ++ ['<'] ++ name ++ taken ++ body.rest := by
        rw [htaken, ← List.append_assoc]
      simp only [Except.map, faultless_ok, ok_bind, tagResult, htext]
      cases body.selfClosing with
      | true => rfl
      | false =>
          rw [if_neg Bool.false_ne_true, if_neg Bool.false_ne_true, Template.afterRawContent]
          cases Template.rawElements.find? fun raw => Text.eqIgnoringAsciiCase raw name with
          | none => rfl
          | some raw =>
              dsimp only
              rw [bytes_append_sub, rawContentEnd_eq]
              rfl

/-- The end of the first occurrence of a word. -/
theorem bytes_add_of_cut? {w t before rest : Text} (h : Text.cut? w t = some (before, rest))
    (s : Text) :
    Text.bytes (s ++ before) + Text.bytes w = Text.bytes (s ++ t) - Text.bytes rest := by
  rw [Text.eq_append_of_cut?_eq_some h, ← List.append_assoc, bytes_append_sub, ← Text.bytes_append,
    List.append_assoc]

/-- Bytes of ASCII after a `<` are looked for in what follows it. -/
theorem isPrefixOf_utf8_opening {w : Text} (hw : IsAsciiText ('<' :: w)) (t : Text) :
    ('<' :: w).isPrefixOf (utf8 ('<' :: t)) = w.isPrefixOf t := by
  rw [isPrefixOf_utf8 hw, List.isPrefixOf_cons_cons, beq_self_eq_true, Bool.true_and]

theorem isPrefixOf_singleton (c : Char) (t : Text) :
    [c].isPrefixOf t = decide (t.head? = some c) := by
  cases t with
  | nil => rfl
  | cons d t => simp [List.isPrefixOf, Bool.beq_eq_decide_eq, eq_comm]

/-- Markup gives the items of its attributes and ends where what is left after it begins. -/
theorem markupAt_eq {s t : Text} (hsize : Text.bytes (s ++ '<' :: t) < 2 ^ 32)
    (items : List Template.Item) :
    markupAt (s ++ '<' :: t) (Text.bytes s) items
      = faultless ((Template.readMarkup (Text.bytes s) t).map fun found =>
          (Text.bytes (s ++ '<' :: t) - Text.bytes found.2,
            items ++ found.1.filterMap Template.Attribute.item?)) := by
  have hcomment : "<!--".toList.isPrefixOf (utf8 ('<' :: t)) = "!--".toList.isPrefixOf t :=
    isPrefixOf_utf8_opening (by decide) t
  have hother : ("<!".toList.isPrefixOf (utf8 ('<' :: t)) || "</".toList.isPrefixOf (utf8 ('<' :: t)))
      = (decide (t.head? = some '!') || decide (t.head? = some '/')) := by
    rw [← isPrefixOf_singleton, ← isPrefixOf_singleton]
    exact congrArg₂ _ (isPrefixOf_utf8_opening (by decide) t) (isPrefixOf_utf8_opening (by decide) t)
  rw [markupAt, octetsBetween_end, ok_bind, hcomment, hother]
  cases hafter : Text.after? "!--".toList t with
  | some comment =>
      obtain rfl := Text.eq_append_of_after?_eq_some hafter
      have hstart : Text.bytes s + 4 = Text.bytes (s ++ "<!--".toList) :=
        (Text.bytes_append s "<!--".toList).symm
      have htext : s ++ '<' :: ("!--".toList ++ comment) = s ++ "<!--".toList ++ comment := by simp
      rw [if_pos (List.isPrefixOf_iff_prefix.mpr (List.prefix_append _ _)), htext, hstart,
        findFrom?_append, Template.readMarkup, hafter]
      dsimp only
      cases hcut : Text.cut? "-->".toList comment with
      | none => rfl
      | some found =>
          obtain ⟨body, rest⟩ := found
          have hstop := bytes_add_of_cut? hcut (s ++ "<!--".toList)
          simp only [Option.map_some, Except.map, faultless_ok, ← hstop, List.filterMap_nil,
            List.append_nil]
          rfl
  | none =>
      have hnot := hafter
      rw [Text.after?_eq_none_iff, ← List.isPrefixOf_iff_prefix] at hnot
      rw [if_neg hnot]
      by_cases hclosing : (decide (t.head? = some '!') || decide (t.head? = some '/')) = true
      · have hcut : Text.cut? ">".toList ('<' :: t)
            = (Text.cut? ">".toList t).map (Prod.map ('<' :: ·) id) :=
          Text.cut?_append_left (s := ['<']) (by decide) [] t
        have hslice := textBetween_end (s ++ ['<']) t
        rw [bytes_append_singleton s (by decide), List.append_assoc, List.singleton_append] at hslice
        rw [if_pos hclosing, findFrom?_append, Template.readMarkup, hafter]
        dsimp only
        rw [if_pos hclosing, hcut, hslice]
        cases hfound : Text.cut? ">".toList t with
        | none => rfl
        | some found =>
            obtain ⟨body, rest⟩ := found
            rw [hfound] at hcut
            have hstop : Text.bytes (s ++ '<' :: body) + Text.bytes ">".toList
                = Text.bytes (s ++ '<' :: t) - Text.bytes rest :=
              bytes_add_of_cut? hcut s
            simp only [Option.map_some, Except.map, faultless_ok, ← hstop, List.filterMap_nil,
              List.append_nil]
            rfl
      · obtain ⟨hbang, hslash⟩ : t.head? ≠ some '!' ∧ t.head? ≠ some '/' := by simpa using hclosing
        rw [if_neg hclosing, startTagAt_eq hsize hbang hslash]

end KeyLint.Cursor
