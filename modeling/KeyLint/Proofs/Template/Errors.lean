import KeyLint.Proofs.Template.Prefixes

/-!
# Templates that cannot be read

An error names the place where something begins that is never closed. It is there, and everything
before that place is in order: the part of the template up to it can be read, or, where an attribute
is not closed, ends inside a start tag that is otherwise in order.
-/

namespace KeyLint.Template

/-- What an error says about the text from its offset on: something begins there and has no end. -/
def Error.Begins : Error → Text → Prop
  | .unterminatedInterpolation _, t => ∃ body, t = "\x7b\x7b".toList ++ body ∧
      ¬ "\x7d\x7d".toList <:+: body
  | .unterminatedComment _, t => ∃ body, t = "<!--".toList ++ body ∧ ¬ "-->".toList <:+: body
  | .unterminatedTag _ _, t => ∃ c body, t = '<' :: c :: body ∧
      (Text.isAsciiLetter c = true ∨ ((c = '/' ∨ c = '!') ∧ '>' ∉ t))
  | .unterminatedAttribute _, t => ∃ name blanks moreBlanks quote body,
      t = name ++ (blanks ++ '=' :: (moreBlanks ++ quote :: body)) ∧ IsAttributeName name ∧
        (∀ c ∈ blanks, Text.isAsciiBlank c = true) ∧
        (∀ c ∈ moreBlanks, Text.isAsciiBlank c = true) ∧
        (quote = '"' ∨ quote = '\'') ∧ quote ∉ body

/-- How a text that begins at `offset` is read if it is cut off where an error is found, `before`
being left and `after` cut off. An attribute is found in a start tag, which is then the one without
an end. -/
def Error.Follows (offset : Nat) (before after : Text) : Error → Prop
  | .unterminatedAttribute k => ∃ outer tag, before = outer ++ '<' :: tag ∧
      (∃ c ∈ tag.head?, Text.isAsciiLetter c = true) ∧
      readMarkup (offset + Text.bytes outer) (tag ++ after) = .error (.unterminatedAttribute k) ∧
      itemsFrom offset before
        = .error (.unterminatedTag (tag.takeWhile isTagNameChar) (offset + Text.bytes outer))
  | _ => ∃ items, itemsFrom offset before = .ok items

/-! ## Regions -/

theorem exists_eq_append_of_readRegion_error {offset : Nat} {t : Text} {e : Error}
    (h : readRegion offset t = .error e) :
    ∃ before body, t = before ++ ("\x7b\x7b".toList ++ body) ∧ ¬ "\x7d\x7d".toList <:+: body ∧
      e = .unterminatedInterpolation (offset + Text.bytes before) ∧
      readRegion offset before = .ok (before, []) := by
  fun_induction readRegion offset t with
  | case1 => cases h
  | case2 offset c cs hopen hnone =>
      cases h
      obtain ⟨rfl, hhead⟩ : c = '\x7b' ∧ cs.head? = some '\x7b' := by simpa using hopen
      obtain ⟨body, rfl⟩ := List.head?_eq_some_iff.mp hhead
      refine ⟨[], body, rfl, (Text.cut?_eq_none_iff (by decide)).mp hnone, rfl, ?_⟩
      rw [readRegion]
  | case3 offset c cs hopen body rest hcut interpolation e' hinner =>
      rename_i ih
      cases h
      obtain ⟨before, body', rfl, hfree, rfl, hread⟩ := ih hinner
      refine ⟨interpolation ++ before, body', ?_, hfree, ?_, ?_⟩
      · rw [eq_interpolation_append hopen hcut, List.append_assoc interpolation]
      · simp only [Text.bytes_append, Nat.add_assoc]
      · have hfirst : Text.cut? "\x7d\x7d".toList (body ++ "\x7d\x7d".toList ++ before)
            = some (body, before) :=
          (Text.cut?_eq_some_iff (by decide)).mpr
            ⟨rfl, ((Text.cut?_eq_some_iff (by decide)).mp hcut).2⟩
        rw [readRegion_interpolation (by simp [interpolation]) hfirst, hread]
        rfl
  | case4 => cases h
  | case5 => cases h
  | case6 offset c cs hopen hmarkup e' hinner ih =>
      cases h
      obtain ⟨before, body, rfl, hfree, rfl, hread⟩ := ih hinner
      refine ⟨c :: before, body, rfl, hfree, by simp only [Text.bytes_cons, Nat.add_assoc], ?_⟩
      rw [readRegion_cons, hread]
      · rfl
      · rintro ⟨rfl, hhead⟩
        exact hopen (by simp [List.head?_append, hhead])
      · rintro ⟨rfl, hmark⟩
        cases before with
        | nil => cases hmark
        | cons d before => exact hmarkup (by simpa [opensMarkup] using hmark)
  | case7 => cases h

/-! ## Start tags -/

theorem exists_eq_cons_of_readValue?_eq_none {t : Text} (h : readValue? t = none) :
    ∃ quote body, t = quote :: body ∧ (quote = '"' ∨ quote = '\'') ∧ quote ∉ body := by
  unfold readValue? at h
  split at h
  · exact ⟨_, _, rfl, .inl rfl, Text.not_mem_of_cut?_eq_none (Option.map_eq_none_iff.mp h)⟩
  · exact ⟨_, _, rfl, .inr rfl, Text.not_mem_of_cut?_eq_none (Option.map_eq_none_iff.mp h)⟩
  · cases h

theorem begins_of_readAttribute_error {offset : Nat} {t : Text} {e : Error}
    (h : readAttribute offset t = .error e) : e = .unterminatedAttribute offset ∧ e.Begins t := by
  unfold readAttribute at h
  split at h
  · cases h
  · next name rest hne hname =>
      have hisName := isAttributeName_readName (t := t) (by rw [hname]; exact hne)
      have hsplit := eq_append_readName t
      rw [hname] at hisName hsplit
      split at h
      · next hassign =>
          cases h
          simp only [readAssignment?] at hassign
          split at hassign
          · next cs hdrop =>
              obtain ⟨quote, body, hcs, hquote, hopen⟩ :=
                exists_eq_cons_of_readValue?_eq_none (Option.map_eq_none_iff.mp hassign)
              refine ⟨rfl, name, rest.takeWhile Text.isAsciiBlank, cs.takeWhile Text.isAsciiBlank,
                quote, body, ?_, hisName, fun c => List.mem_takeWhile_imp,
                fun c => List.mem_takeWhile_imp, hquote, hopen⟩
              rw [← hcs, List.takeWhile_append_dropWhile, ← hdrop, List.takeWhile_append_dropWhile]
              exact hsplit
          · cases hassign
      · cases h

theorem Error.Begins.head?_ne {k : Nat} {t : Text} (h : (unterminatedAttribute k).Begins t) :
    t.head? ≠ some '>' := by
  obtain ⟨name, blanks, moreBlanks, quote, body, rfl, ⟨hne, hname⟩, _⟩ := h
  obtain ⟨c, name, rfl⟩ := List.exists_cons_of_ne_nil hne
  intro hhead
  exact (hname c List.mem_cons_self).2.1 (by simpa using hhead)

theorem exists_eq_append_of_readTagBody_error {unclosed e : Error} {offset : Nat} {t : Text}
    (h : readTagBody unclosed offset t = .error e) :
    e = unclosed ∨ ∃ before after, t = before ++ after ∧
      e = .unterminatedAttribute (offset + Text.bytes before) ∧ e.Begins after ∧
      readTagBody unclosed offset before = .error unclosed := by
  fun_induction readTagBody unclosed offset t with
  | case1 =>
      cases h
      exact .inl rfl
  | case2 offset c cs hblank ih =>
      rcases ih h with rfl | ⟨before, after, rfl, rfl, hbegins, hread⟩
      · exact .inl rfl
      · refine .inr ⟨c :: before, after, rfl, ?_, hbegins, ?_⟩
        · simp only [Text.bytes_cons, Nat.add_assoc]
        · rw [readTagBody, if_pos hblank, hread]
  | case3 => cases h
  | case4 => cases h
  | case5 offset cs hblank hend hclose ih =>
      rcases ih h with rfl | ⟨before, after, rfl, rfl, hbegins, hread⟩
      · exact .inl rfl
      · refine .inr ⟨'/' :: before, after, rfl, ?_, hbegins, ?_⟩
        · simp only [Text.bytes_cons, Nat.add_assoc]
        · rw [readTagBody_slash]
          · exact hread
          · intro hhead
            exact hclose (by simp [List.head?_append, hhead])
  | case6 offset c cs hblank hend hclose hslash e' hread =>
      cases h
      obtain ⟨rfl, hbegins⟩ := begins_of_readAttribute_error hread
      exact .inr ⟨[], c :: cs, rfl, rfl, hbegins, by rw [readTagBody]⟩
  | case7 offset c cs hblank hend hclose hslash a rest hread e' hinner ih =>
      cases h
      rcases ih hinner with rfl | ⟨before, after, rfl, rfl, hbegins, hbody⟩
      · exact .inl rfl
      · obtain ⟨taken, rfl, hcut⟩ := readAttribute_of_cut hslash hread fun _ => hbegins.head?_ne
        have hwidth : Text.bytes (c :: (taken ++ (before ++ after))) - Text.bytes (before ++ after)
            = Text.bytes (c :: taken) := by
          simp only [Text.bytes_cons, Text.bytes_append]
          omega
        have hwidth' : Text.bytes (c :: (taken ++ before)) - Text.bytes before
            = Text.bytes (c :: taken) := by
          simp only [Text.bytes_cons, Text.bytes_append]
          omega
        rw [hwidth] at hbody hbegins ⊢
        refine .inr ⟨c :: (taken ++ before), after, by simp, ?_, hbegins, ?_⟩
        · simp only [Text.bytes_cons, Text.bytes_append, Nat.add_assoc]
        · rw [readTagBody_attribute_eq (by simpa using hblank) hend hslash, hcut, Except.bind, hwidth',
            hbody]
          rfl
  | case8 => cases h

/-! ## Markup -/

theorem exists_eq_append_of_startTag_error {offset : Nat} {c : Char} {t : Text} {e : Error}
    (hletter : Text.isAsciiLetter c = true) (h : readMarkup offset (c :: t) = .error e) :
    e = .unterminatedTag ((c :: t).takeWhile isTagNameChar) offset ∨
    ∃ tag after, t = tag ++ after ∧
      e = .unterminatedAttribute (offset + 1 + Text.bytes (c :: tag)) ∧ e.Begins after ∧
      readMarkup offset (c :: tag)
        = .error (.unterminatedTag ((c :: tag).takeWhile isTagNameChar) offset) := by
  have hname : isTagNameChar c = true := by simp [isTagNameChar, Text.isAsciiAlnum, hletter]
  have hbang : c ≠ '!' := by rintro rfl; revert hletter; decide
  have hslash : c ≠ '/' := by rintro rfl; revert hletter; decide
  rw [readMarkup_startTag_eq (by simpa using hbang) (by simpa using hslash)] at h
  rw [List.takeWhile_cons_of_pos hname, List.dropWhile_cons_of_pos hname] at h
  cases hbody : readTagBody (.unterminatedTag (c :: t.takeWhile isTagNameChar) offset)
      (offset + 1 + Text.bytes (c :: t.takeWhile isTagNameChar)) (t.dropWhile isTagNameChar) with
  | ok body =>
      rw [hbody] at h
      cases h
  | error e' =>
      rw [hbody] at h
      cases h
      rcases exists_eq_append_of_readTagBody_error hbody with
        rfl | ⟨before, after, ht, rfl, hbegins, hread⟩
      · exact .inl (by rw [List.takeWhile_cons_of_pos hname])
      · have hnames : ∀ d ∈ t.takeWhile isTagNameChar, isTagNameChar d = true :=
          fun d => List.mem_takeWhile_imp
        have hstop : ∀ d ∈ before.head?, isTagNameChar d = false :=
          forall_head?_of_isPrefix ⟨after, ht.symm⟩ fun d => Text.eq_false_of_head?_dropWhile
        refine .inr ⟨t.takeWhile isTagNameChar ++ before, after, ?_, ?_, hbegins, ?_⟩
        · rw [List.append_assoc, ← ht, List.takeWhile_append_dropWhile]
        · simp only [Text.bytes_cons, Text.bytes_append, Nat.add_assoc]
        · rw [readMarkup_startTag_eq (by simpa using hbang) (by simpa using hslash),
            List.takeWhile_cons_of_pos hname, List.dropWhile_cons_of_pos hname,
            Text.takeWhile_append_of_head? hnames hstop, Text.dropWhile_append_of_head? hnames hstop,
            hread]
          rfl

/-- Markup cannot be read because it has no end itself or, in a start tag, because an attribute in it
has none. -/
theorem exists_eq_append_of_readMarkup_error {offset : Nat} {t : Text} {e : Error}
    (hopens : opensMarkup t = true) (h : readMarkup offset t = .error e) :
    ((∀ k, e ≠ .unterminatedAttribute k) ∧ e.offset = offset ∧ e.Begins ('<' :: t)) ∨
    ∃ tag after, t = tag ++ after ∧ e = .unterminatedAttribute (offset + 1 + Text.bytes tag) ∧
      e.Begins after ∧ (∃ c ∈ tag.head?, Text.isAsciiLetter c = true) ∧
      readMarkup offset tag = .error (.unterminatedTag (tag.takeWhile isTagNameChar) offset) := by
  have hmarkup := h
  unfold readMarkup at h
  split at h
  · next comment hafter =>
      split at h
      · next hcut =>
          cases h
          refine .inl ⟨by simp, rfl, comment, ?_, (Text.cut?_eq_none_iff (by decide)).mp hcut⟩
          rw [Text.eq_append_of_after?_eq_some hafter]
          rfl
      · cases h
  · split at h
    · next hhead =>
        split at h
        · next hcut =>
            cases h
            obtain ⟨c, t, rfl⟩ := List.exists_cons_of_ne_nil (l := t) (by rintro rfl; cases hopens)
            have hc : c = '/' ∨ c = '!' := by simpa [or_comm] using hhead
            refine .inl ⟨by simp, rfl, c, t, rfl, .inr ⟨hc, ?_⟩⟩
            have hopen : '>' ∉ c :: t := Text.not_mem_of_cut?_eq_none hcut
            simpa using hopen
        · cases h
    · next hhead =>
        obtain ⟨hbang, hslash⟩ : t.head? ≠ some '!' ∧ t.head? ≠ some '/' := by simpa using hhead
        obtain ⟨c, t, rfl⟩ := List.exists_cons_of_ne_nil (l := t) (by rintro rfl; cases hopens)
        have hletter : Text.isAsciiLetter c = true := by
          have hkinds : (Text.isAsciiLetter c = true ∨ c = '/') ∨ c = '!' := by
            simpa [opensMarkup] using hopens
          rcases hkinds with (hletter | rfl) | rfl
          · exact hletter
          · exact absurd rfl hslash
          · exact absurd rfl hbang
        rcases exists_eq_append_of_startTag_error hletter hmarkup with
          rfl | ⟨tag, after, rfl, rfl, hbegins, hread⟩
        · exact .inl ⟨by simp, rfl, c, t, rfl, .inl hletter⟩
        · exact .inr ⟨c :: tag, after, rfl, rfl, hbegins, ⟨c, rfl, hletter⟩, hread⟩

/-! ## The whole template -/

theorem exists_eq_of_startsEndTag {raw t : Text}
    (h : startsIgnoringCase ("</".toList ++ raw) t = true) : ∃ rest, t = '<' :: '/' :: rest := by
  obtain ⟨w, ⟨rest, rfl⟩, hw⟩ := startsIgnoringCase_iff.mp h
  obtain ⟨c, w, rfl, hc, hw⟩ := List.map_eq_cons_iff.mp hw
  obtain ⟨d, w, rfl, hd, hw⟩ := List.map_eq_cons_iff.mp hw
  rw [Text.eq_of_toSmallAscii_eq hc (by decide), Text.eq_of_toSmallAscii_eq hd (by decide)]
  exact ⟨w ++ rest, rfl⟩

theorem endsRegion_of_startsEndTag {raw t : Text}
    (h : startsIgnoringCase ("</".toList ++ raw) t = true) : EndsRegion t := by
  obtain ⟨rest, rfl⟩ := exists_eq_of_startsEndTag h
  exact .inr ⟨'/' :: rest, rfl, rfl⟩

theorem region_eq_nil_of_startsEndTag {raw t region rest : Text} {offset : Nat}
    (h : startsIgnoringCase ("</".toList ++ raw) t = true)
    (hregion : readRegion offset t = .ok (region, rest)) : region = [] := by
  rw [ReadsRegion.of_endsRegion (endsRegion_of_startsEndTag h)] at hregion
  cases hregion
  rfl

/-- An end tag is kept with the `>` after it. -/
theorem keepsEndTag_of_mem {w before after : Text} (hend : '>' ∈ w) :
    KeepsEndTag (w ++ before) (w ++ (before ++ after)) := by
  intro raw hraw hstarts
  obtain ⟨endTag, htag, hmap⟩ := startsIgnoringCase_iff.mp hstarts
  have hfree : '>' ∉ endTag := by
    intro hmem
    have hrawFree : ∀ raw ∈ rawElements, '>' ∉ "</".toList ++ raw := by decide
    exact hrawFree raw hraw (hmap ▸ List.mem_map_of_mem (f := Text.toSmallAscii) hmem)
  obtain ⟨s, u, rfl⟩ := List.append_of_mem hend
  rw [List.append_assoc, List.cons_append] at htag
  have hs : endTag <+: s := isPrefix_of_isPrefix_append_cons htag hfree
  refine .inr (startsIgnoringCase_iff.mpr ⟨endTag, hs.trans ?_, hmap⟩)
  rw [List.append_assoc]
  exact List.prefix_append _ _

theorem Error.Follows.of_items {offset : Nat} {before after : Text} {e : Error} {items : List Item}
    (hkind : ∀ k, e ≠ .unterminatedAttribute k) (h : itemsFrom offset before = .ok items) :
    e.Follows offset before after := by
  cases e with
  | unterminatedComment | unterminatedTag | unterminatedInterpolation => exact ⟨items, h⟩
  | unterminatedAttribute k => exact absurd rfl (hkind k)

theorem Error.Follows.of_round {offset next : Nat} {before inner w after : Text} {e : Error}
    {f : List Item → List Item} (hround : itemsFrom offset before = (itemsFrom next inner).map f)
    (hbefore : before = w ++ inner) (hnext : next = offset + Text.bytes w)
    (h : e.Follows next inner after) : e.Follows offset before after := by
  subst hbefore hnext
  cases e with
  | unterminatedComment | unterminatedTag | unterminatedInterpolation =>
      obtain ⟨items, hitems⟩ := h
      exact ⟨f items, by rw [hround, hitems]; rfl⟩
  | unterminatedAttribute k =>
      obtain ⟨outer, tag, rfl, hletter, hmarkup, hread⟩ := h
      refine ⟨w ++ outer, tag, by simp, hletter, ?_, ?_⟩
      · rw [Text.bytes_append, ← Nat.add_assoc, hmarkup]
      · rw [hround, hread, Text.bytes_append, ← Nat.add_assoc]
        rfl

/-- The induction is over the rounds of the reader. Where a round reads a raw element, the cut has to
leave the end tag that ends it, so this is proved along with the claim for the later rounds. -/
theorem exists_eq_append_of_itemsFrom_error {offset : Nat} {t : Text} {e : Error}
    (h : itemsFrom offset t = .error e) :
    ∃ before after, t = before ++ after ∧ e.offset = offset + Text.bytes before ∧ e.Begins after ∧
      e.Follows offset before after ∧ KeepsEndTag before t := by
  fun_induction itemsFrom offset t with
  | case1 offset t e' hregion =>
      cases h
      obtain ⟨before, body, rfl, hopen, rfl, hread⟩ := exists_eq_append_of_readRegion_error hregion
      refine ⟨before, _, rfl, rfl, ⟨body, rfl, hopen⟩, ⟨_, itemsFrom_of_region hread⟩, ?_⟩
      intro raw _ hstarts
      rw [ReadsRegion.of_endsRegion (endsRegion_of_startsEndTag hstarts)] at hregion
      cases hregion
  | case2 => cases h
  | case3 offset t region opening markup hregion markupOffset e' hmarkup =>
      cases h
      obtain hnil | ⟨markup, heq, hopens⟩ := endsRegion_of_readRegion hregion
      · cases hnil
      cases heq
      obtain rfl := eq_append_of_readRegion hregion
      rcases exists_eq_append_of_readMarkup_error hopens hmarkup with
        ⟨hkind, hoffset, hbegins⟩ | ⟨tag, after, rfl, rfl, hbegins, ⟨c, hc, hletter⟩, hread⟩
      · have hread := readRegion_append hregion (.inl rfl)
        rw [List.append_nil] at hread
        refine ⟨region, _, rfl, hoffset, hbegins, .of_items hkind (itemsFrom_of_region hread), ?_⟩
        exact fun raw _ hstarts => .inl (region_eq_nil_of_startsEndTag hstarts hregion)
      · have hends : EndsRegion ('<' :: tag) := by
          obtain ⟨tag, rfl⟩ := List.head?_eq_some_iff.mp hc
          exact .inr ⟨c :: tag, rfl, by simp [opensMarkup, hletter]⟩
        refine ⟨region ++ '<' :: tag, after, by simp, ?_, hbegins, ?_, ?_⟩
        · simp only [Error.offset, markupOffset, Text.bytes_append, Text.bytes_cons,
            show '<'.utf8Size = 1 from rfl]
          omega
        · refine ⟨region, tag, rfl, ⟨c, hc, hletter⟩, hmarkup, ?_⟩
          rw [itemsFrom_eq_bind (readRegion_append hregion hends), hread]
          rfl
        · intro raw _ hstarts
          obtain rfl := region_eq_nil_of_startsEndTag hstarts hregion
          obtain ⟨rest, hrest⟩ := exists_eq_of_startsEndTag hstarts
          obtain ⟨tag, rfl⟩ := List.head?_eq_some_iff.mp hc
          cases hrest
          exact absurd hletter (by decide)
  | case4 offset t region opening markup hregion markupOffset attributes rest hmarkup restOffset e'
      hinner =>
      rename_i ih
      cases h
      obtain ⟨before, after, rfl, hoffset, hbegins, hfollows, hkeeps⟩ := ih hinner
      obtain hnil | ⟨markup, heq, hopens⟩ := endsRegion_of_readRegion hregion
      · cases hnil
      cases heq
      obtain rfl := eq_append_of_readRegion hregion
      obtain ⟨taken, rfl, hend, hcut⟩ := readMarkup_append hmarkup
      have hnext : restOffset = offset + Text.bytes region + Text.bytes ('<' :: taken) := by
        simp only [restOffset, markupOffset, Text.bytes_cons, Text.bytes_append]
        omega
      have hends : EndsRegion ('<' :: (taken ++ before)) := by
        refine .inr ⟨taken ++ before, rfl, ?_⟩
        rw [opensMarkup_append_eq (u := before ++ after) (List.ne_nil_of_mem hend)]
        exact hopens
      have hround := itemsFrom_markup_eq (readRegion_append hregion hends) rfl
        (hcut before (List.prefix_append before after) hkeeps)
        (show '<' :: (taken ++ before) = ('<' :: taken) ++ before from rfl)
      rw [← hnext] at hround
      refine ⟨region ++ '<' :: (taken ++ before), after, by simp, ?_, hbegins, ?_, ?_⟩
      · rw [hoffset, hnext]
        simp only [Text.bytes_cons, Text.bytes_append, Nat.add_assoc]
      · refine hfollows.of_round (w := region ++ '<' :: taken) hround (by simp) ?_
        rw [hnext, Text.bytes_append, Nat.add_assoc]
      · intro raw hraw hstarts
        obtain rfl := region_eq_nil_of_startsEndTag hstarts hregion
        have hmem : '>' ∈ '<' :: taken := List.mem_cons_of_mem _ hend
        exact keepsEndTag_of_mem hmem raw hraw hstarts
  | case5 => cases h

/-- Where a template cannot be read, something begins at the error's offset and has no end, and the
template up to there is in order: it can be read, or it ends in the start tag whose attribute has no
end. -/
theorem error_of_items {source : Text} {e : Error} (h : items source = .error e) :
    ∃ before after, source = before ++ after ∧ e.offset = Text.bytes before ∧ e.Begins after ∧
      e.Follows 0 before after := by
  obtain ⟨before, after, rfl, hoffset, hbegins, hfollows, _⟩ := exists_eq_append_of_itemsFrom_error h
  exact ⟨before, after, rfl, by simpa using hoffset, hbegins, hfollows⟩

/-- The second attribute of the second tag has no end; cut off before it, the template has a tag
without one. -/
theorem error_of_second_attribute :
    items "<p>é</p><a b c= 'x>".toList = .error (.unterminatedAttribute 14) ∧
    ∃ before after, "<p>é</p><a b c= 'x>".toList = before ++ after ∧
      (Error.unterminatedAttribute 14).offset = Text.bytes before ∧
      (Error.unterminatedAttribute 14).Begins after ∧
      (Error.unterminatedAttribute 14).Follows 0 before after := by
  have hitems : items "<p>é</p><a b c= 'x>".toList = .error (.unterminatedAttribute 14) := by
    decide +kernel
  exact ⟨hitems, error_of_items hitems⟩

-- What is left of it is read up to the tag in which the attribute stands.
example : items "<p>é</p><a b ".toList = .error (.unterminatedTag "a".toList 9) := by
  decide +kernel

end KeyLint.Template
