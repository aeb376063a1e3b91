import KeyLint.Proofs.Template.RoundTrip

/-!
# Templates that are cut off

What a reader has read does not depend on what follows: where a text is cut off behind the part that
a reader took, the reader takes the same part of what is left. Only a few characters are looked at
beyond that part, and for each reader the cut has to leave those alone.
-/

namespace KeyLint.Template

/-! ## Regions -/

theorem readRegion_cons {c : Char} {t : Text} (hopen : ¬ (c = '\x7b' ∧ t.head? = some '\x7b'))
    (hmarkup : ¬ (c = '<' ∧ opensMarkup t = true)) (offset : Nat) :
    readRegion offset (c :: t)
      = (readRegion (offset + c.utf8Size) t).map fun found => (c :: found.1, found.2) := by
  rw [readRegion, if_neg (by simpa using hopen), if_neg (by simpa using hmarkup)]
  cases readRegion (offset + c.utf8Size) t <;> rfl

theorem readRegion_interpolation {s t body rest : Text} (hs : s = '\x7b' :: '\x7b' :: t)
    (hcut : Text.cut? "\x7d\x7d".toList t = some (body, rest)) (offset : Nat) :
    readRegion offset s
      = (readRegion (offset + Text.bytes ("\x7b\x7b".toList ++ body ++ "\x7d\x7d".toList)) rest).map
        fun found => ("\x7b\x7b".toList ++ body ++ "\x7d\x7d".toList ++ found.1, found.2) := by
  subst hs
  rw [readRegion, if_pos (by simp)]
  split
  · next hnone =>
      rw [List.drop_one, List.tail_cons, hcut] at hnone
      cases hnone
  · next body' rest' hsome =>
      rw [List.drop_one, List.tail_cons, hcut] at hsome
      cases hsome
      dsimp only
      split
      · next hread => rw [hread]; rfl
      · next hread => rw [hread]; rfl

theorem not_opensMarkup_of_endsRegion {t : Text} (h : EndsRegion t) : opensMarkup t = false := by
  rcases h with rfl | ⟨markup, rfl, _⟩
  · rfl
  · rfl

theorem head?_append_eq {s t u : Text} (hs : s ≠ []) : (s ++ t).head? = (s ++ u).head? := by
  cases s with
  | nil => exact absurd rfl hs
  | cons c s => rfl

theorem opensMarkup_append_eq {s t u : Text} (hs : s ≠ []) :
    opensMarkup (s ++ t) = opensMarkup (s ++ u) := by
  cases s with
  | nil => exact absurd rfl hs
  | cons c s => rfl

theorem endsRegion_of_readRegion {offset : Nat} {t region rest : Text}
    (h : readRegion offset t = .ok (region, rest)) : EndsRegion rest := by
  fun_induction readRegion offset t generalizing region with
  | case1 =>
      cases h
      exact .inl rfl
  | case2 => cases h
  | case3 => cases h
  | case4 offset c cs hopen body tail hcut interpolation region _ hinner =>
      rename_i ih
      cases h
      exact ih hinner
  | case5 offset c cs _ hmarkup =>
      cases h
      obtain ⟨rfl, hopens⟩ : c = '<' ∧ opensMarkup cs = true := by simpa using hmarkup
      exact .inr ⟨cs, rfl, hopens⟩
  | case6 => cases h
  | case7 offset c cs _ _ region _ hinner ih =>
      cases h
      exact ih hinner

/-- A region is read up to whatever ends it. -/
theorem readRegion_append {offset : Nat} {t region rest s : Text}
    (h : readRegion offset t = .ok (region, rest)) (hs : EndsRegion s) :
    readRegion offset (region ++ s) = .ok (region, s) := by
  fun_induction readRegion offset t generalizing region with
  | case1 =>
      cases h
      exact ReadsRegion.of_endsRegion hs _
  | case2 => cases h
  | case3 => cases h
  | case4 offset c cs hopen body tail hcut interpolation region _ hinner =>
      rename_i ih
      cases h
      have hfirst : Text.cut? "\x7d\x7d".toList (body ++ "\x7d\x7d".toList ++ (region ++ s))
          = some (body, region ++ s) :=
        (Text.cut?_eq_some_iff (by decide)).mpr
          ⟨rfl, ((Text.cut?_eq_some_iff (by decide)).mp hcut).2⟩
      rw [readRegion_interpolation (by simp [interpolation]) hfirst, ih hinner]
      rfl
  | case5 =>
      cases h
      exact ReadsRegion.of_endsRegion hs _
  | case6 => cases h
  | case7 offset c cs hopen hmarkup region rest hinner ih =>
      cases h
      have hcs := eq_append_of_readRegion hinner
      rw [List.cons_append, readRegion_cons, ih hinner]
      · rfl
      · rintro ⟨rfl, hhead⟩
        cases region with
        | nil => exact hs.head?_ne hhead
        | cons d region => exact hopen (by simpa [hcs] using hhead)
      · rintro ⟨rfl, hmark⟩
        cases region with
        | nil =>
            rw [List.nil_append, not_opensMarkup_of_endsRegion hs] at hmark
            cases hmark
        | cons d region =>
            rw [opensMarkup_append_eq (u := rest) (by simp), ← hcs] at hmark
            simp [hmark] at hmarkup

/-! ## Attributes -/

theorem readName_of_cut {t name s after : Text} (h : readName t = (name, s ++ after))
    (hcut : s = ['/'] → after.head? ≠ some '>') : readName (name ++ s) = (name, s) := by
  induction t generalizing name with
  | nil =>
      obtain ⟨rfl, rfl, rfl⟩ : name = [] ∧ s = [] ∧ after = [] := by simpa [readName] using h
      rfl
  | cons c cs ih =>
      rw [readName] at h
      split at h
      · next hend =>
          obtain ⟨rfl, hs⟩ := Prod.mk.inj h
          cases s with
          | nil => rfl
          | cons d s =>
              obtain ⟨rfl, rfl⟩ := List.cons.inj hs
              rw [List.nil_append, readName, if_pos]
              rcases Bool.or_eq_true_iff.mp hend with hend | hend
              · simp [hend]
              · simp only [Bool.and_eq_true, decide_eq_true_eq] at hend
                obtain ⟨rfl, hhead⟩ := hend
                cases s with
                | nil => exact absurd hhead (hcut rfl)
                | cons e s =>
                    have he : e = '>' := by simpa using hhead
                    simp [he]
      · next hname =>
          cases hcs : readName cs with
          | mk name' rest' =>
              rw [hcs] at h
              obtain ⟨rfl, rfl⟩ := Prod.mk.inj h
              have hsplit : cs = name' ++ (s ++ after) := by
                have heq := eq_append_readName cs
                rwa [hcs] at heq
              rw [List.cons_append, readName, ih hcs, if_neg]
              intro hbad
              refine hname ?_
              rw [hsplit, ← List.append_assoc]
              rcases Bool.or_eq_true_iff.mp hbad with hbad | hbad
              · simp [hbad]
              · simp only [Bool.and_eq_true, decide_eq_true_eq] at hbad
                have hhead : (name' ++ s ++ after).head? = some '>' := by
                  rw [List.head?_append, hbad.2]
                  rfl
                rw [hbad.1, hhead]
                rfl

theorem forall_head?_of_isPrefix {p : Char → Prop} {s t : Text} (h : s <+: t)
    (ht : ∀ c ∈ t.head?, p c) : ∀ c ∈ s.head?, p c := by
  obtain ⟨u, rfl⟩ := h
  intro c hc
  exact ht c (by rw [List.head?_append, hc]; rfl)

theorem readValue?_unquoted {t : Text} (h : ∀ c ∈ t.head?, c ≠ '"' ∧ c ≠ '\'') :
    readValue? t
      = some (⟨t.takeWhile fun c => !Text.isAsciiBlank c && c ≠ '>',
          t.takeWhile fun c => !Text.isAsciiBlank c && c ≠ '>'⟩,
        t.dropWhile fun c => !Text.isAsciiBlank c && c ≠ '>') := by
  unfold readValue?
  split
  · exact absurd rfl (h _ rfl).1
  · exact absurd rfl (h _ rfl).2
  · rfl

theorem eq_append_of_readValue? {t rest : Text} {v : Value} (h : readValue? t = some (v, rest)) :
    t = v.written ++ rest := by
  have hblanks : ∀ c ∈ ([] : Text), Text.isAsciiBlank c = true := by simp
  exact (@writtenAttribute_readValue? [] [] [] t rest v hblanks hblanks h).1

theorem readValue?_of_cut {t s after : Text} {v : Value} (h : readValue? t = some (v, s ++ after)) :
    readValue? (v.written ++ s) = some (v, s) := by
  have hquoted : ∀ {quote : Char} {cs text rest : Text},
      Text.cut? [quote] cs = some (text, rest) →
        Text.cut? [quote] (text ++ quote :: s) = some (text, s) := by
    intro quote cs text rest hcut
    obtain ⟨_, hfirst⟩ := (Text.cut?_eq_some_iff (by simp)).mp hcut
    exact (Text.cut?_eq_some_iff (by simp)).mpr ⟨by simp, hfirst⟩
  have hsplit := eq_append_of_readValue? h
  unfold readValue? at h
  split at h
  · obtain ⟨⟨text, rest⟩, hcut, heq⟩ := Option.map_eq_some_iff.mp h
    cases heq
    simp [readValue?, hquoted hcut]
  · obtain ⟨⟨text, rest⟩, hcut, heq⟩ := Option.map_eq_some_iff.mp h
    cases heq
    simp [readValue?, hquoted hcut]
  · next hdouble hsingle =>
      obtain ⟨rfl, hrest⟩ := Prod.mk.inj (Option.some.inj h)
      have hhead : ∀ c ∈ t.head?, c ≠ '"' ∧ c ≠ '\'' := by
        intro c hc
        obtain ⟨u, rfl⟩ := List.head?_eq_some_iff.mp hc
        exact ⟨fun heq => hdouble u (by rw [heq]), fun heq => hsingle u (by rw [heq])⟩
      have hend : ∀ c ∈ s.head?, (!Text.isAsciiBlank c && decide (c ≠ '>')) = false := by
        refine forall_head?_of_isPrefix (List.prefix_append s after) fun c hc => ?_
        rw [← hrest] at hc
        exact Text.eq_false_of_head?_dropWhile hc
      have hall := fun c (hc : c ∈ t.takeWhile fun c => !Text.isAsciiBlank c && decide (c ≠ '>')) =>
        List.mem_takeWhile_imp hc
      rw [readValue?_unquoted (forall_head?_of_isPrefix ⟨after, by simpa using hsplit.symm⟩ hhead),
        Text.takeWhile_append_of_head? hall hend, Text.dropWhile_append_of_head? hall hend]

theorem readAssignment?_of_cut {t value s after : Text} {width : Nat}
    (h : readAssignment? t = some (value, width, s ++ after)) :
    ∃ taken, t = taken ++ (s ++ after) ∧ (taken = [] ∨ '=' ∈ taken) ∧
      readAssignment? (taken ++ s) = some (value, width, s) := by
  simp only [readAssignment?] at h
  split at h
  · next cs hdrop =>
      obtain ⟨⟨v, rest⟩, hvalue, heq⟩ := Option.map_eq_some_iff.mp h
      cases heq
      have hread := readValue?_of_cut hvalue
      have hsplit := eq_append_of_readValue? hvalue
      have hblanks := fun c (hc : c ∈ t.takeWhile Text.isAsciiBlank) => List.mem_takeWhile_imp hc
      have hmore := fun c (hc : c ∈ cs.takeWhile Text.isAsciiBlank) => List.mem_takeWhile_imp hc
      have hequals : ∀ c ∈ ('=' :: (cs.takeWhile Text.isAsciiBlank ++ (v.written ++ s))).head?,
          Text.isAsciiBlank c = false := by simp [Text.isAsciiBlank]
      have hstart : ∀ c ∈ (v.written ++ s).head?, Text.isAsciiBlank c = false := by
        refine forall_head?_of_isPrefix (t := cs.dropWhile Text.isAsciiBlank)
          ⟨after, by simpa using hsplit.symm⟩ fun c hc => Text.eq_false_of_head?_dropWhile hc
      refine ⟨t.takeWhile Text.isAsciiBlank
        ++ '=' :: (cs.takeWhile Text.isAsciiBlank ++ v.written), ?_, .inr (by simp), ?_⟩
      · calc t = t.takeWhile Text.isAsciiBlank ++ '=' :: cs := by
              rw [← hdrop, List.takeWhile_append_dropWhile]
          _ = t.takeWhile Text.isAsciiBlank
              ++ '=' :: (cs.takeWhile Text.isAsciiBlank ++ cs.dropWhile Text.isAsciiBlank) := by
              rw [List.takeWhile_append_dropWhile]
          _ = _ := by simp [hsplit]
      · simp only [List.append_assoc, List.cons_append, readAssignment?,
          Text.dropWhile_append_of_head? hblanks hequals,
          Text.takeWhile_append_of_head? hblanks hequals,
          Text.dropWhile_append_of_head? hmore hstart, Text.takeWhile_append_of_head? hmore hstart,
          hread, Option.map_some]
  · next hnone =>
      cases h
      refine ⟨[], rfl, .inl rfl, ?_⟩
      rw [List.nil_append, readAssignment?]
      split
      · next cs hdrop =>
          refine absurd ?_ (hnone (cs ++ after))
          rw [List.dropWhile_append, hdrop]
          rfl
      · rfl

/-- An attribute, or a character that is none, is read in the same way if the text is cut off behind
it, unless the cut takes the end of the tag from a slash. -/
theorem readAttribute_of_cut {offset : Nat} {c : Char} {cs s after : Text} {a : Option Attribute}
    (hc : c ≠ '/') (h : readAttribute offset (c :: cs) = .ok (a, s ++ after))
    (hcut : s = ['/'] → after.head? ≠ some '>') :
    ∃ taken, cs = taken ++ (s ++ after) ∧ readAttribute offset (c :: (taken ++ s)) = .ok (a, s) := by
  unfold readAttribute at h
  split at h
  · next rest hname =>
      obtain ⟨rfl, hcs⟩ := Prod.mk.inj (Except.ok.inj h)
      refine ⟨[], by simpa using hcs, ?_⟩
      have hend : endsName c = true := by
        rw [readName] at hname
        split at hname
        · next hend => simpa [hc] using hend
        · cases hname
      rw [readAttribute, List.nil_append, readName_eq_nil hend]
      rfl
  · next name rest hne hname =>
      split at h
      · cases h
      · next value width rest' hassign =>
          obtain ⟨rfl, rfl⟩ := Prod.mk.inj (Except.ok.inj h)
          obtain ⟨taken, rfl, htaken, hread⟩ := readAssignment?_of_cut hassign
          have hsplit := eq_append_readName (c :: cs)
          rw [hname] at hsplit
          obtain ⟨d, name, rfl⟩ := List.exists_cons_of_ne_nil hne
          obtain ⟨rfl, rfl⟩ := List.cons.inj hsplit
          have hslash : taken ++ s = ['/'] → after.head? ≠ some '>' := by
            rcases htaken with rfl | hequals
            · exact hcut
            · intro heq
              exact absurd (heq ▸ List.mem_append_left s hequals) (by simp)
          rw [← List.append_assoc] at hname
          have hcutName : readName (c :: (name ++ (taken ++ s))) = (c :: name, taken ++ s) :=
            readName_of_cut hname hslash
          refine ⟨name ++ taken, by simp, ?_⟩
          simp only [List.append_assoc, readAttribute, hcutName, hread]

/-! ## Start tags -/

theorem readTagBody_attribute_eq {unclosed : Error} {offset : Nat} {c : Char} {cs : Text}
    (hblank : Text.isAsciiBlank c = false) (hend : c ≠ '>') (hslash : c ≠ '/') :
    readTagBody unclosed offset (c :: cs)
      = (readAttribute offset (c :: cs)).bind fun found =>
        (readTagBody unclosed (offset + (Text.bytes (c :: cs) - Text.bytes found.2)) found.2).map
          fun body => { body with attributes := found.1.toList ++ body.attributes } := by
  rw [readTagBody, if_neg (by simp [hblank]), if_neg hend, if_neg (by simp [hslash]), if_neg hslash]
  split
  · next hread => rw [hread]; rfl
  · next hread =>
      rw [hread, Except.bind]
      split
      · next hbody => rw [hbody]; rfl
      · next hbody => rw [hbody]; rfl

theorem readTagBody_slash {t : Text} (h : t.head? ≠ some '>') (unclosed : Error) (offset : Nat) :
    readTagBody unclosed offset ('/' :: t) = readTagBody unclosed (offset + 1) t := by
  rw [readTagBody, if_neg (by decide), if_neg (by decide), if_neg (by simpa using h), if_pos rfl]
  rfl

/-- The rest of a start tag is read up to its end, whatever follows. -/
theorem readTagBody_append {unclosed : Error} {offset : Nat} {t : Text} {body : TagBody}
    (h : readTagBody unclosed offset t = .ok body) :
    ∃ taken, t = taken ++ body.rest ∧ '>' ∈ taken ∧
      ∀ s, s <+: body.rest →
        readTagBody unclosed offset (taken ++ s) = .ok { body with rest := s } := by
  fun_induction readTagBody unclosed offset t generalizing body with
  | case1 => cases h
  | case2 offset c cs hblank ih =>
      obtain ⟨taken, rfl, hend, hread⟩ := ih h
      refine ⟨c :: taken, rfl, List.mem_cons_of_mem c hend, fun s hs => ?_⟩
      rw [List.cons_append, readTagBody, if_pos hblank, hread s hs]
  | case3 offset cs hblank =>
      cases h
      refine ⟨['>'], rfl, List.mem_cons_self, fun s _ => ?_⟩
      rw [List.cons_append, readTagBody, if_neg hblank, if_pos rfl]
      rfl
  | case4 offset c cs hblank hend hclose =>
      cases h
      obtain ⟨rfl, hhead⟩ : c = '/' ∧ cs.head? = some '>' := by simpa using hclose
      obtain ⟨rest, rfl⟩ := List.head?_eq_some_iff.mp hhead
      refine ⟨['/', '>'], rfl, by simp, fun s _ => ?_⟩
      rw [List.cons_append, readTagBody, if_neg hblank, if_neg hend, if_pos (by simp)]
      rfl
  | case5 offset cs hblank hend hclose ih =>
      obtain ⟨taken, rfl, hmem, hread⟩ := ih h
      refine ⟨'/' :: taken, rfl, List.mem_cons_of_mem _ hmem, fun s hs => ?_⟩
      rw [List.cons_append, readTagBody_slash, ← hread s hs]
      · rfl
      · rw [head?_append_eq (u := body.rest) (List.ne_nil_of_mem hmem)]
        simpa using hclose
  | case6 => cases h
  | case7 => cases h
  | case8 offset c cs hblank hend hclose hslash a rest hread inner hinner ih =>
      cases h
      obtain ⟨taken, rfl, hmem, hbody⟩ := ih hinner
      have hattribute : ∀ s, s <+: inner.rest → ∃ first, cs = first ++ (taken ++ inner.rest) ∧
          readAttribute offset (c :: (first ++ (taken ++ s))) = .ok (a, taken ++ s) := by
        rintro s ⟨after, hs⟩
        rw [← hs, ← List.append_assoc] at hread ⊢
        refine readAttribute_of_cut hslash hread fun heq => ?_
        exact absurd (heq ▸ List.mem_append_left s hmem) (by decide)
      obtain ⟨first, hfirst, _⟩ := hattribute [] List.nil_prefix
      refine ⟨c :: (first ++ taken), by simp [hfirst], by simp [hmem], fun s hs => ?_⟩
      obtain ⟨first', hfirst', hcut⟩ := hattribute s hs
      obtain rfl : first = first' := List.append_cancel_right (hfirst.symm.trans hfirst')
      have hwidth : Text.bytes (c :: (first ++ (taken ++ s))) - Text.bytes (taken ++ s)
          = Text.bytes (c :: cs) - Text.bytes (taken ++ inner.rest) := by
        rw [hfirst]
        simp only [Text.bytes_cons, Text.bytes_append]
        omega
      rw [List.cons_append, List.append_assoc,
        readTagBody_attribute_eq (by simpa using hblank) hend hslash, hcut, Except.bind, hwidth,
        hbody s hs]
      rfl

/-! ## Markup -/

theorem startsIgnoringCase_mono {word s t : Text} (h : startsIgnoringCase word s = true)
    (hs : s <+: t) : startsIgnoringCase word t = true := by
  obtain ⟨w, hw, hmap⟩ := startsIgnoringCase_iff.mp h
  exact startsIgnoringCase_iff.mpr ⟨w, hw.trans hs, hmap⟩

/-- If a text begins with the end tag of a raw element then `s`, which is left of it, still does, or
nothing is left. -/
def KeepsEndTag (s t : Text) : Prop :=
  ∀ raw ∈ rawElements, startsIgnoringCase ("</".toList ++ raw) t = true →
    s = [] ∨ startsIgnoringCase ("</".toList ++ raw) s = true

theorem skipTo_of_starts {word t : Text} (h : startsIgnoringCase word t = true) :
    skipTo word t = t := by
  cases t with
  | nil => rfl
  | cons c cs => rw [skipTo, if_pos h]

theorem skipTo_append_of_cut (word t : Text) :
    ∃ content, t = content ++ skipTo word t ∧
      ∀ s, s <+: skipTo word t →
        (startsIgnoringCase word (skipTo word t) = true →
          s = [] ∨ startsIgnoringCase word s = true) →
        skipTo word (content ++ s) = s := by
  induction t with
  | nil =>
      refine ⟨[], rfl, fun s hs _ => ?_⟩
      obtain rfl : s = [] := List.prefix_nil.mp hs
      rfl
  | cons c cs ih =>
      rw [skipTo]
      split
      · next hstarts =>
          refine ⟨[], rfl, fun s hs hkeeps => ?_⟩
          rcases hkeeps hstarts with rfl | hkept
          · rfl
          · exact skipTo_of_starts hkept
      · next hstarts =>
          obtain ⟨content, hcs, hcut⟩ := ih
          refine ⟨c :: content, by rw [List.cons_append, ← hcs], fun s hs hkeeps => ?_⟩
          have hpre : c :: (content ++ s) <+: c :: cs := by
            rw [hcs, List.cons_prefix_cons, List.prefix_append_right_inj]
            exact ⟨rfl, hs⟩
          rw [List.cons_append, skipTo, if_neg fun hbad => hstarts (startsIgnoringCase_mono hbad hpre)]
          exact hcut s hs hkeeps

theorem afterRawContent_of_cut (name t : Text) :
    ∃ content, t = content ++ afterRawContent name t ∧
      ∀ s, s <+: afterRawContent name t → KeepsEndTag s (afterRawContent name t) →
        afterRawContent name (content ++ s) = s := by
  unfold afterRawContent
  cases hraw : rawElements.find? fun raw => Text.eqIgnoringAsciiCase raw name with
  | none => exact ⟨[], rfl, fun s _ _ => rfl⟩
  | some raw =>
      obtain ⟨content, ht, hcut⟩ := skipTo_append_of_cut ("</".toList ++ raw) t
      exact ⟨content, ht, fun s hs hkeeps => hcut s hs (hkeeps raw (List.mem_of_find?_eq_some hraw))⟩

theorem isPrefix_of_isPrefix_append_cons {c : Char} {w s t : Text} (h : w <+: s ++ c :: t)
    (hc : c ∉ w) : w <+: s := by
  rcases List.prefix_or_prefix_of_prefix h ⟨t, List.append_cons s c t |>.symm⟩ with hw | hw
  · rcases List.prefix_concat_iff.mp hw with rfl | hw
    · exact absurd (by simp) hc
    · exact hw
  · exact absurd (hw.subset (by simp)) hc

theorem readMarkup_startTag_eq {t : Text} (hbang : t.head? ≠ some '!') (hslash : t.head? ≠ some '/')
    (offset : Nat) :
    readMarkup offset t
      = (readTagBody (.unterminatedTag (t.takeWhile isTagNameChar) offset)
          (offset + 1 + Text.bytes (t.takeWhile isTagNameChar)) (t.dropWhile isTagNameChar)).map
        fun body => (body.attributes,
          if body.selfClosing then body.rest
          else afterRawContent (t.takeWhile isTagNameChar) body.rest) := by
  have hcomment : Text.after? "!--".toList t = none := by
    rw [Text.after?_eq_none_iff]
    rintro ⟨u, rfl⟩
    exact hbang rfl
  rw [readMarkup, hcomment]
  simp only [hbang, hslash, decide_false, Bool.or_self, Bool.false_eq_true, if_false]
  split
  · next hread => rw [hread]; rfl
  · next hread => rw [hread]; rfl

theorem readMarkup_append_of_startTag {offset : Nat} {t rest : Text} {attributes : List Attribute}
    (hbang : t.head? ≠ some '!') (hslash : t.head? ≠ some '/')
    (h : readMarkup offset t = .ok (attributes, rest)) :
    ∃ taken, t = taken ++ rest ∧ '>' ∈ taken ∧
      ∀ s, s <+: rest → KeepsEndTag s rest →
        readMarkup offset (taken ++ s) = .ok (attributes, s) := by
  rw [readMarkup_startTag_eq hbang hslash] at h
  generalize hname : t.takeWhile isTagNameChar = name at h
  cases hbody : readTagBody (.unterminatedTag name offset) (offset + 1 + Text.bytes name)
      (t.dropWhile isTagNameChar) with
  | error e =>
      rw [hbody] at h
      cases h
  | ok body =>
      rw [hbody] at h
      obtain ⟨rfl, hrest⟩ := Prod.mk.inj (Except.ok.inj h)
      obtain ⟨first, hfirst, hend, hread⟩ := readTagBody_append hbody
      -- The content of a raw element belongs to the markup that is taken.
      obtain ⟨content, hcontent, hcut⟩ : ∃ content, body.rest = content ++ rest ∧
          ∀ s, s <+: rest → KeepsEndTag s rest →
            (if body.selfClosing then content ++ s else afterRawContent name (content ++ s)) = s := by
        obtain ⟨content, hcontent, hcut⟩ := afterRawContent_of_cut name body.rest
        cases hclosing : body.selfClosing with
        | true => exact ⟨[], by simpa [hclosing] using hrest, fun s _ _ => rfl⟩
        | false =>
            have hrest : afterRawContent name body.rest = rest := by simpa [hclosing] using hrest
            rw [hrest] at hcontent hcut
            exact ⟨content, hcontent, hcut⟩
      have ht : t = name ++ (first ++ (content ++ rest)) := by
        rw [← hcontent, ← hfirst, ← hname, List.takeWhile_append_dropWhile]
      refine ⟨name ++ (first ++ content), by simp [ht], by simp [hend], fun s hs hkeeps => ?_⟩
      have hne : name ++ first ≠ [] := List.ne_nil_of_mem (List.mem_append_right name hend)
      have hhead : (name ++ (first ++ (content ++ s))).head? = t.head? := by
        rw [ht, ← List.append_assoc, ← List.append_assoc name]
        exact head?_append_eq hne
      have hnames : ∀ c ∈ name, isTagNameChar c = true := by
        subst hname
        exact fun c hc => List.mem_takeWhile_imp hc
      have hstop : ∀ c ∈ (first ++ (content ++ s)).head?, isTagNameChar c = false := by
        intro c hc
        rw [head?_append_eq (u := body.rest) (List.ne_nil_of_mem hend), ← hfirst] at hc
        exact Text.eq_false_of_head?_dropWhile hc
      have hpre : content ++ s <+: body.rest := by
        rwa [hcontent, List.prefix_append_right_inj]
      rw [List.append_assoc, List.append_assoc,
        readMarkup_startTag_eq (hhead ▸ hbang) (hhead ▸ hslash),
        Text.takeWhile_append_of_head? hnames hstop, Text.dropWhile_append_of_head? hnames hstop,
        hread _ hpre]
      simp only [Except.map, hcut s hs hkeeps]

/-- Markup is read up to its end, whatever follows. -/
theorem readMarkup_append {offset : Nat} {t rest : Text} {attributes : List Attribute}
    (h : readMarkup offset t = .ok (attributes, rest)) :
    ∃ taken, t = taken ++ rest ∧ '>' ∈ taken ∧
      ∀ s, s <+: rest → KeepsEndTag s rest →
        readMarkup offset (taken ++ s) = .ok (attributes, s) := by
  have hmarkup := h
  unfold readMarkup at h
  split at h
  · next comment hafter =>
      split at h
      · cases h
      · next body _ hcut =>
          cases h
          obtain ⟨hcomment, hfirst⟩ := (Text.cut?_eq_some_iff (by decide)).mp hcut
          have hfree : ¬ "-->".toList <:+: body :=
            fun hin => hfirst (hin.trans (List.prefix_append _ _).isInfix)
          refine ⟨"!--".toList ++ (body ++ "-->".toList), ?_, by simp, fun s _ _ => ?_⟩
          · simp only [Text.eq_append_of_after?_eq_some hafter, hcomment, List.append_assoc]
          · simpa using readMarkup_comment hfree offset s
  · next hafter =>
      rw [Text.after?_eq_none_iff] at hafter
      split at h
      · next hhead =>
          split at h
          · cases h
          · next body _ hcut =>
              cases h
              have ht : t = body ++ '>' :: rest := by
                simpa using Text.eq_append_of_cut?_eq_some hcut
              have hfree := Text.not_mem_of_cut? hcut
              obtain ⟨c, body, rfl⟩ : ∃ c cs, body = c :: cs := by
                refine List.exists_cons_of_ne_nil ?_
                rintro rfl
                simp [ht] at hhead
              refine ⟨c :: (body ++ ['>']), by simp [ht], by simp, fun s _ _ => ?_⟩
              have hread := readMarkup_upTo_end (s := c :: body) (t := s) (fun hpre => ?_)
                (by simpa [ht] using hhead) hfree offset
              · simpa using hread
              · refine hafter (ht ▸ ?_)
                exact (isPrefix_of_isPrefix_append_cons hpre (by decide)).trans
                  (List.prefix_append _ _)
      · next hhead =>
          obtain ⟨hbang, hslash⟩ : t.head? ≠ some '!' ∧ t.head? ≠ some '/' := by simpa using hhead
          exact readMarkup_append_of_startTag hbang hslash hmarkup

end KeyLint.Template
