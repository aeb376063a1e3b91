import KeyLint.Proofs.Expression.Interpolations

/-!
# Interpolations in the regions of a template

A region is gone through twice, first by `readRegion` to find its end and then by `segments`, which
may go on in the middle of an interpolation: the header of a block ends at a brace, a declaration at
a semicolon, wherever these stand. This does no harm. In a region that was found, two opening braces
are followed by two closing ones at whatever place they stand, and so the segments of the region are
woven from plain texts and whole interpolations, the same that are found in them later.
-/

namespace KeyLint.Template

/-! ## The regions of a template -/

/-- The reader of a text that begins at `offset` finds a region that begins at `start`. -/
inductive HasRegion : (offset : Nat) → Text → (start : Nat) → (region : Text) → Prop
  | here {offset : Nat} {t region rest : Text} (hregion : readRegion offset t = .ok (region, rest)) :
      HasRegion offset t offset region
  | later {offset start : Nat} {t region found markup rest : Text} {opening : Char}
      {attributes : List Attribute}
      (hregion : readRegion offset t = .ok (region, opening :: markup))
      (hmarkup : readMarkup (offset + Text.bytes region) markup = .ok (attributes, rest))
      (hrest : HasRegion
        (offset + Text.bytes region + (Text.bytes (opening :: markup) - Text.bytes rest)) rest
        start found) :
      HasRegion offset t start found

theorem HasRegion.exists_eq_append {offset start : Nat} {t region : Text}
    (h : HasRegion offset t start region) :
    ∃ before after, t = before ++ region ++ after ∧ start = offset + Text.bytes before := by
  induction h with
  | @here offset t region rest hregion =>
      exact ⟨[], rest, eq_append_of_readRegion hregion, rfl⟩
  | @later offset start t region found markup rest opening attributes hregion hmarkup _ ih =>
      obtain ⟨before, after, rfl, hstart⟩ := ih
      obtain ⟨taken, htaken, _⟩ := located_readMarkup hmarkup
      refine ⟨region ++ opening :: (taken ++ before), after, ?_, ?_⟩
      · simp [eq_append_of_readRegion hregion, htaken]
      · rw [hstart, htaken]
        simp only [Text.bytes_cons, Text.bytes_append]
        omega

theorem mem_items_cases {offset : Nat} {t : Text} {items : List Item} {item : Item}
    (h : itemsFrom offset t = .ok items) (hitem : item ∈ items) :
    (∃ start region, HasRegion offset t start region ∧ item ∈ regionItems start region) ∨
      ∃ a : Attribute, a.item? = some item := by
  fun_induction itemsFrom offset t generalizing items with
  | case1 => cases h
  | case2 offset t region hregion =>
      cases h
      exact .inl ⟨offset, region, .here hregion, hitem⟩
  | case3 => cases h
  | case4 => cases h
  | case5 offset t region opening markup hregion markupOffset attributes rest hmarkup restOffset more
      hmore =>
      rename_i ih
      cases h
      rcases List.mem_append.mp hitem with hitem | hitem
      · rcases List.mem_append.mp hitem with hitem | hitem
        · exact .inl ⟨offset, region, .here hregion, hitem⟩
        · obtain ⟨a, _, ha⟩ := List.mem_filterMap.mp hitem
          exact .inr ⟨a, ha⟩
      · rcases ih hmore hitem with ⟨start, found, hfound, hitem⟩ | hattribute
        · exact .inl ⟨start, found, .later hregion hmarkup hfound, hitem⟩
        · exact .inr hattribute

/-! ## Braces in a region -/

/-- Two opening braces at any place of the text are followed by two closing ones. -/
def ClosesBraces (t : Text) : Prop :=
  ∀ v, '\x7b' :: '\x7b' :: v <:+ t → ['\x7d', '\x7d'] <:+: v

theorem ClosesBraces.of_suffix {s t : Text} (h : ClosesBraces t) (hs : s <:+ t) : ClosesBraces s :=
  fun v hv => h v (hv.trans hs)

theorem ClosesBraces.cons {c : Char} {t : Text} (hc : ¬ (c = '\x7b' ∧ t.head? = some '\x7b'))
    (h : ClosesBraces t) : ClosesBraces (c :: t) := by
  intro v hv
  rcases List.suffix_cons_iff.mp hv with heq | hv
  · cases heq
    exact absurd ⟨rfl, rfl⟩ hc
  · exact h v hv

/-- Braces that open within an interpolation are closed where it is closed, the latest. -/
theorem ClosesBraces.interpolation {t : Text} (body : Text) (h : ClosesBraces t) :
    ClosesBraces (body ++ '\x7d' :: '\x7d' :: t) := by
  induction body with
  | nil => exact .cons (by simp) (.cons (by simp) h)
  | cons c body ih =>
      intro v hv
      rcases List.suffix_cons_iff.mp hv with heq | hv
      · obtain ⟨rfl, htail⟩ := List.cons.inj heq
        cases body with
        | nil => cases htail
        | cons d body =>
            cases htail
            exact ⟨body, t, by simp⟩
      · exact ih v hv

theorem closesBraces_of_readRegion {offset : Nat} {t region rest : Text}
    (h : readRegion offset t = .ok (region, rest)) : ClosesBraces region := by
  fun_induction readRegion offset t generalizing region with
  | case1 =>
      cases h
      intro v hv
      simp at hv
  | case2 => cases h
  | case3 => cases h
  | case4 offset c cs hopen body tail hcut interpolation region _ hinner =>
      rename_i ih
      cases h
      have hrest := (ih hinner).interpolation ("\x7b\x7b".toList ++ body)
      simpa [interpolation] using hrest
  | case5 =>
      cases h
      intro v hv
      simp at hv
  | case6 => cases h
  | case7 offset c cs hopen _ region rest hinner ih =>
      cases h
      refine (ih hinner).cons fun hc => hopen ?_
      rw [eq_append_of_readRegion hinner]
      simp [hc]

theorem HasRegion.closesBraces {offset start : Nat} {t region : Text}
    (h : HasRegion offset t start region) : ClosesBraces region := by
  induction h with
  | here hregion => exact closesBraces_of_readRegion hregion
  | later _ _ _ ih => exact ih

/-! ## Segments of a region -/

/-- A text is woven from plain texts and from interpolations with the contents `units`. A plain text
holds no closing brace and no two opening ones, and an interpolation begins with the first of its
opening braces and ends with the first of its closing ones. -/
inductive Woven : Text → (units : List Text) → Prop
  | plain {t : Text} (hopen : ¬ ['\x7b', '\x7b'] <:+: t) (hclose : '\x7d' ∉ t) : Woven t []
  | interpolation {t unit rest : Text} {units : List Text} (hopen : ¬ ['\x7b', '\x7b'] <:+: t)
      (hclose : '\x7d' ∉ t) (hlast : t.getLast? ≠ some '\x7b')
      (hfree : ¬ ['\x7d', '\x7d'] <:+: unit) (hend : unit.getLast? ≠ some '\x7d')
      (hrest : Woven rest units) :
      Woven (t ++ '\x7b' :: '\x7b' :: (unit ++ '\x7d' :: '\x7d' :: rest)) (unit :: units)

namespace Woven

variable {t : Text} {units : List Text}

theorem nil : Woven [] [] :=
  .plain (by simp) (by simp)

theorem cons {c : Char} (h : Woven t units) (hclose : c ≠ '\x7d')
    (hopen : ¬ (c = '\x7b' ∧ t.head? = some '\x7b')) : Woven (c :: t) units := by
  have hpair : ∀ s : Text, ¬ ['\x7b', '\x7b'] <:+: s → ¬ (c = '\x7b' ∧ s.head? = some '\x7b') →
      ¬ ['\x7b', '\x7b'] <:+: c :: s := by
    intro s hs hc
    refine Text.not_pair_infix_append (s := [c]) (fun hin => ?_) hs ?_
    · exact absurd hin.length_le (by simp)
    by_cases heq : c = '\x7b'
    · exact .inr fun hhead => hc ⟨heq, hhead⟩
    · exact .inl (by simpa using heq)
  cases h with
  | plain hfree hnone =>
      exact .plain (hpair t hfree hopen) (by simp [Ne.symm hclose, hnone])
  | @interpolation s unit rest units hfree hnone hlast hunit hend hrest =>
      refine .interpolation (t := c :: s) ?_ (by simp [Ne.symm hclose, hnone]) ?_ hunit hend hrest
      · refine hpair s hfree fun hc => hopen ⟨hc.1, ?_⟩
        simp [List.head?_append, hc.2]
      · cases s with
        | nil => simpa using fun hc => hopen ⟨hc, rfl⟩
        | cons d s => simpa using hlast

theorem not_infix_of_nil (h : Woven t []) : ¬ ['\x7b', '\x7b'] <:+: t := by
  cases h with
  | plain hopen hclose => exact hopen

theorem not_mem_of_not_infix (h : Woven t units) (hnone : ¬ ['\x7b', '\x7b'] <:+: t) :
    '\x7d' ∉ t := by
  cases h with
  | plain hopen hclose => exact hclose
  | @interpolation s unit rest units => exact absurd ⟨s, unit ++ '\x7d' :: '\x7d' :: rest, by simp⟩ hnone

theorem interpolations_eq (h : Woven t units) : Expression.interpolations t = units := by
  induction h with
  | @plain t hopen hclose =>
      have hnone : Text.cut? "\x7b\x7b".toList t = none := by
        cases hcut : Text.cut? "\x7b\x7b".toList t with
        | none => rfl
        | some found =>
            exact absurd ⟨_, _, (Text.eq_append_of_cut?_eq_some hcut).symm⟩ hopen
      rw [Expression.interpolations_eq, hnone]
  | @interpolation t unit rest units hopen hclose hlast hfree hend _ ih =>
      have hcut : Text.cut? "\x7b\x7b".toList
          (t ++ '\x7b' :: '\x7b' :: (unit ++ '\x7d' :: '\x7d' :: rest))
          = some (t, unit ++ '\x7d' :: '\x7d' :: rest) := by
        refine (Text.cut?_eq_some_iff (by decide)).mpr ⟨by simp, ?_⟩
        exact Text.not_pair_infix_append hopen (by decide) (.inl hlast)
      rw [Expression.interpolations_eq, hcut]
      simp only [cut?_interpolation rest hfree hend, ih]

theorem tail {c : Char} (hc : c ≠ '\x7b') (h : Woven (c :: t) units) : Woven t units := by
  generalize hs : c :: t = s at h
  cases h with
  | plain hopen hclose =>
      subst hs
      refine .plain (fun hin => hopen (hin.trans (List.suffix_cons c t).isInfix)) ?_
      exact fun hmem => hclose (List.mem_cons_of_mem c hmem)
  | @interpolation s unit rest units hopen hclose hlast hfree hend hrest =>
      cases s with
      | nil =>
          cases hs
          exact absurd rfl hc
      | cons d s =>
          cases hs
          refine .interpolation (fun hin => hopen (hin.trans (List.suffix_cons c s).isInfix))
            (fun hmem => hclose (List.mem_cons_of_mem c hmem)) ?_ hfree hend hrest
          cases s with
          | nil => simp
          | cons e s => simpa using hlast

theorem of_append_left {s : Text} (hs : '\x7b' ∉ s) (h : Woven (s ++ t) units) : Woven t units := by
  induction s with
  | nil => exact h
  | cons c s ih =>
      obtain ⟨hc, hs⟩ := not_or.mp (List.mem_cons.not.mp hs)
      exact ih hs (tail (Ne.symm hc) h)

theorem of_append_right {s : Text} (hs : '\x7d' ∉ s) (h : Woven (t ++ s) units) :
    Woven t units := by
  generalize hts : t ++ s = r at h
  induction h generalizing t with
  | plain hopen hclose =>
      subst hts
      refine .plain (fun hin => hopen (hin.trans (List.prefix_append t s).isInfix)) ?_
      exact fun hmem => hclose (List.mem_append_left s hmem)
  | @interpolation before unit rest units hopen hclose hlast hfree hend _ ih =>
      have heq : t ++ s = (before ++ '\x7b' :: '\x7b' :: (unit ++ ['\x7d', '\x7d'])) ++ rest := by
        simp [hts]
      -- What is cut off holds no closing brace, so that it ends after the interpolation.
      obtain ⟨z, rfl, hrest⟩ : ∃ z, t = (before ++ '\x7b' :: '\x7b' :: (unit ++ ['\x7d', '\x7d'])) ++ z
          ∧ rest = z ++ s := by
        rcases List.append_eq_append_iff.mp heq with ⟨z, hz, hsz⟩ | ⟨z, hz, hsz⟩
        · rcases List.eq_nil_or_concat z with rfl | ⟨z, c, rfl⟩
          · exact ⟨[], by simpa using hz.symm, by simpa using hsz.symm⟩
          · have hc : c = '\x7d' := by
              have hlastc := congrArg List.getLast? hz
              simpa [List.getLast?_cons] using hlastc.symm
            exact absurd (by simp [hsz, hc]) hs
        · exact ⟨z, hz, hsz⟩
      have hwoven := Woven.interpolation hopen hclose hlast hfree hend (ih hrest.symm)
      simpa using hwoven

theorem trim (h : Woven t units) : Woven (Text.trim t) units := by
  obtain ⟨rest, ht, hrest⟩ := Text.eq_append_trim t
  rw [ht, List.append_assoc] at h
  have hlead : '\x7b' ∉ t.takeWhile Text.isBlank := fun hmem => by
    cases List.mem_takeWhile_imp hmem
  have hend : '\x7d' ∉ rest := fun hmem => by
    cases hrest _ hmem
  exact of_append_right hend (of_append_left hlead h)

end Woven

theorem exists_segments_eq_cons (offset : Nat) (t : Text) :
    ∃ first more, segments offset t = ⟨offset, first⟩ :: more ∧ first <+: t := by
  have hdivided := divided_segments offset t
  generalize segments offset t = found at hdivided
  cases hdivided with
  | last => exact ⟨t, [], rfl, List.prefix_refl t⟩
  | cons s between h => exact ⟨s, _, rfl, ⟨_, by rw [List.append_assoc]⟩⟩

theorem woven_of_mem_prepend {offset next : Nat} {before t : Text}
    (hfirst : ∀ first units, first <+: t → Woven first units → ∃ us, Woven (before ++ first) us)
    (h : ∀ segment ∈ segments next t, ∃ units, Woven segment.text units) :
    ∀ segment ∈ prepend offset before (segments next t), ∃ units, Woven segment.text units := by
  obtain ⟨first, more, hsegments, hpre⟩ := exists_segments_eq_cons next t
  rw [hsegments] at h ⊢
  obtain ⟨⟨units, hwoven⟩, hmore⟩ := List.forall_mem_cons.mp h
  exact List.forall_mem_cons.mpr ⟨hfirst first units hpre hwoven, hmore⟩

theorem woven_of_mem_segments {offset : Nat} {t : Text} (h : ClosesBraces t) :
    ∀ segment ∈ segments offset t, ∃ units, Woven segment.text units := by
  have hchar : ∀ {c : Char} {cs : Text}, c ≠ '\x7d' → ¬ (c = '\x7b' ∧ cs.head? = some '\x7b') →
      ∀ first units, first <+: cs → Woven first units → ∃ us, Woven ([c] ++ first) us := by
    intro c cs hclose hopen first units hpre hwoven
    refine ⟨units, hwoven.cons hclose fun hc => hopen ⟨hc.1, ?_⟩⟩
    obtain ⟨rest, rfl⟩ := hpre
    simp [List.head?_append, hc.2]
  fun_induction segments offset t with
  | case1 offset => simpa using ⟨[], Woven.nil⟩
  | case2 offset c cs hopen body rest hcut interpolation ih =>
      have hsplit := eq_interpolation_append hopen hcut
      obtain ⟨_, hfirst⟩ := (Text.cut?_eq_some_iff (by decide)).mp hcut
      have hfree : ¬ ['\x7d', '\x7d'] <:+: body :=
        fun hin => hfirst (hin.trans (List.prefix_append _ _).isInfix)
      have hend : body.getLast? ≠ some '\x7d' := by
        intro hlast
        obtain ⟨s, hs⟩ := List.getLast?_eq_some_iff.mp hlast
        exact hfirst ⟨s, [], by simp [hs]⟩
      refine woven_of_mem_prepend (fun first units _ hwoven => ⟨body :: units, ?_⟩)
        (ih (h.of_suffix ⟨_, hsplit.symm⟩))
      simpa [interpolation] using Woven.interpolation (t := []) (by simp) (by simp) (by simp) hfree
        hend hwoven
  | case3 offset c cs hopen hcut =>
      obtain ⟨rfl, hhead⟩ : c = '\x7b' ∧ cs.head? = some '\x7b' := by simpa using hopen
      obtain ⟨v, rfl⟩ := List.head?_eq_some_iff.mp hhead
      exact absurd (h v (List.suffix_refl _)) ((Text.cut?_eq_none_iff (by decide)).mp hcut)
  | case4 offset cs rest hafter _ ih =>
      have hrest := (afterControlFlow?_suffix hafter).trans (List.suffix_cons '@' cs)
      exact List.forall_mem_cons.mpr ⟨⟨[], .nil⟩, ih (h.of_suffix hrest)⟩
  | case5 offset cs hafter hopen ih =>
      exact woven_of_mem_prepend (hchar (by decide) (by simp)) (ih (h.of_suffix (List.suffix_cons _ _)))
  | case6 offset cs _ _ ih =>
      exact List.forall_mem_cons.mpr ⟨⟨[], .nil⟩, ih (h.of_suffix (List.suffix_cons _ _))⟩
  | case7 offset c cs hopen _ hclose ih =>
      exact woven_of_mem_prepend (hchar hclose (by simpa using hopen))
        (ih (h.of_suffix (List.suffix_cons _ _)))

/-! ## Items of a template -/

theorem Divided.exists_eq_append {offset : Nat} {t : Text} {found : List Segment}
    (h : Divided offset t found) : ∀ segment ∈ found, ∃ before after,
      t = before ++ segment.text ++ after ∧ segment.offset = offset + Text.bytes before := by
  induction h with
  | @last offset t => exact List.forall_mem_singleton.mpr ⟨[], [], by simp, rfl⟩
  | @cons offset t rest s between h ih =>
      refine List.forall_mem_cons.mpr ⟨⟨[], between ++ t, by simp, rfl⟩, ?_⟩
      intro segment hsegment
      obtain ⟨before, after, rfl, hoffset⟩ := ih segment hsegment
      refine ⟨s ++ between ++ before, after, by simp, ?_⟩
      simp only [hoffset, Text.bytes_append]
      omega

theorem Segment.of_item?_eq_some {segment : Segment} {item : Item}
    (h : segment.item? = some item) :
    (∃ before after, segment.text = before ++ Text.trim segment.text ++ after ∧
      item.span = ⟨segment.offset + Text.bytes before,
        segment.offset + Text.bytes before + Text.bytes (Text.trim segment.text)⟩) ∧
    ((['\x7b', '\x7b'] <:+: Text.trim segment.text ∧
        item = .boundText (Text.trim segment.text) item.span) ∨
      (¬ ['\x7b', '\x7b'] <:+: Text.trim segment.text ∧
        item = .text (decodeEntities (Text.trim segment.text)) item.span)) := by
  obtain ⟨after, hafter, _⟩ := Text.eq_append_trim segment.text
  unfold Segment.item? at h
  simp only at h
  split at h
  · cases h
  split at h
  · next hbound =>
      cases h
      exact ⟨⟨_, after, hafter, rfl⟩, .inl ⟨Text.occursIn_iff_infix.mp hbound, rfl⟩⟩
  · next hplain =>
      cases h
      exact ⟨⟨_, after, hafter, rfl⟩, .inr ⟨Text.occursIn_iff_infix.not.mp hplain, rfl⟩⟩

theorem exists_written_of_mem_regionItems {offset start : Nat} {t region : Text} {item : Item}
    (hregion : HasRegion offset t start region) (hitem : item ∈ regionItems start region) :
    ∃ before written after units, t = before ++ written ++ after ∧
      item.span = ⟨offset + Text.bytes before, offset + Text.bytes before + Text.bytes written⟩ ∧
      Woven written units ∧
      ((['\x7b', '\x7b'] <:+: written ∧ item = .boundText written item.span) ∨
        (¬ ['\x7b', '\x7b'] <:+: written ∧ item = .text (decodeEntities written) item.span)) := by
  obtain ⟨segment, hsegment, hsome⟩ := List.mem_filterMap.mp hitem
  obtain ⟨units, hwoven⟩ := woven_of_mem_segments hregion.closesBraces segment hsegment
  obtain ⟨⟨lead, trail, htext, hspan⟩, hkind⟩ := Segment.of_item?_eq_some hsome
  obtain ⟨s, s', hs, hsoffset⟩ := (divided_segments start region).exists_eq_append segment hsegment
  obtain ⟨r, r', hr, hroffset⟩ := hregion.exists_eq_append
  refine ⟨r ++ s ++ lead, _, trail ++ s' ++ r', units, ?_, ?_, hwoven.trim, hkind⟩
  · calc t = r ++ (s ++ (lead ++ Text.trim segment.text ++ trail) ++ s') ++ r' := by
          rw [← htext, ← hs, ← hr]
      _ = r ++ s ++ lead ++ Text.trim segment.text ++ (trail ++ s' ++ r') := by simp
  · have hbefore : segment.offset + Text.bytes lead = offset + Text.bytes (r ++ s ++ lead) := by
      simp only [hsoffset, hroffset, Text.bytes_append]
      omega
    rw [hspan, hbefore]

/-- The two passes over a region and the search for interpolations agree. In the regions of a
template that can be read, braces that open an interpolation are closed before the region ends,
whatever follows the region. A bound text is woven from plain texts and at least one interpolation,
and just these are found in it. The part of the source that a text was made from holds no closing
brace and no two opening ones. -/
theorem interpolations_of_items {source : Text} {items : List Item}
    (h : Template.items source = .ok items) :
    (∀ start region, HasRegion 0 source start region →
      ∀ before v after, region = before ++ "\x7b\x7b".toList ++ v →
        ∃ body rest, v = body ++ "\x7d\x7d".toList ++ rest ∧
          Text.cut? "\x7d\x7d".toList (v ++ after) = some (body, rest ++ after)) ∧
    (∀ text span, .boundText text span ∈ items →
      ∃ units, units ≠ [] ∧ Woven text units ∧ Expression.interpolations text = units) ∧
    (∀ value span, .text value span ∈ items →
      ∃ written, Text.slice? source span = some written ∧
        ¬ "\x7b\x7b".toList <:+: written ∧ '\x7d' ∉ written) := by
  refine ⟨?_, ?_, ?_⟩
  · rintro start region hregion before v after rfl
    have hcloses : ['\x7d', '\x7d'] <:+: v := hregion.closesBraces v ⟨before, by simp⟩
    obtain ⟨⟨body, rest⟩, hcut⟩ : ∃ found, Text.cut? "\x7d\x7d".toList v = some found :=
      Option.ne_none_iff_exists'.mp fun hnone =>
        (Text.cut?_eq_none_iff (by decide)).mp hnone hcloses
    exact ⟨body, rest, Text.eq_append_of_cut?_eq_some hcut, Text.cut?_append (by decide) hcut after⟩
  · intro text span hitem
    rcases mem_items_cases h hitem with ⟨start, region, hregion, hitem⟩ | ⟨a, ha⟩
    · obtain ⟨before, written, after, units, rfl, hspan, hwoven, ⟨hopen, hbound⟩ | ⟨_, htext⟩⟩ :=
        exists_written_of_mem_regionItems hregion hitem
      · cases hbound
        refine ⟨units, ?_, hwoven, hwoven.interpolations_eq⟩
        rintro rfl
        exact hwoven.not_infix_of_nil hopen
      · cases htext
    · rcases classify?_eq_some ha with ⟨_, _, _, heq⟩ | ⟨_, _, heq⟩ <;> cases heq
  · intro value span hitem
    rcases mem_items_cases h hitem with ⟨start, region, hregion, hitem⟩ | ⟨a, ha⟩
    · obtain ⟨before, written, after, units, rfl, hspan, hwoven, ⟨_, hbound⟩ | ⟨hplain, _⟩⟩ :=
        exists_written_of_mem_regionItems hregion hitem
      · cases hbound
      · refine ⟨written, ?_, hplain, hwoven.not_mem_of_not_infix hplain⟩
        simp only [Item.span, Nat.zero_add] at hspan
        rw [hspan]
        exact Text.slice?_append before written after
    · rcases classify?_eq_some ha with ⟨_, _, _, heq⟩ | ⟨_, _, heq⟩ <;> cases heq

/-- The declaration ends within the interpolation, so that the second pass goes on there and meets
braces that the first pass did not take for opening ones. -/
theorem interpolations_after_declaration :
    Template.items "é\x7d@let x = \x7b\x7b a; b \x7b\x7b c \x7d\x7d d".toList
      = .ok [.text "é".toList ⟨0, 2⟩, .boundText "b \x7b\x7b c \x7d\x7d d".toList ⟨18, 29⟩] ∧
    (∃ body rest, " c \x7d\x7d d".toList = body ++ "\x7d\x7d".toList ++ rest ∧
      Text.cut? "\x7d\x7d".toList (" c \x7d\x7d d".toList ++ []) = some (body, rest ++ [])) ∧
    (∃ units, units ≠ [] ∧ Woven "b \x7b\x7b c \x7d\x7d d".toList units ∧
      Expression.interpolations "b \x7b\x7b c \x7d\x7d d".toList = units) ∧
    ∃ written,
      Text.slice? "é\x7d@let x = \x7b\x7b a; b \x7b\x7b c \x7d\x7d d".toList ⟨0, 2⟩ = some written ∧
        ¬ "\x7b\x7b".toList <:+: written ∧ '\x7d' ∉ written := by
  have hitems : Template.items "é\x7d@let x = \x7b\x7b a; b \x7b\x7b c \x7d\x7d d".toList
      = .ok [.text "é".toList ⟨0, 2⟩, .boundText "b \x7b\x7b c \x7d\x7d d".toList ⟨18, 29⟩] := by
    decide +kernel
  have hregion : HasRegion 0 "é\x7d@let x = \x7b\x7b a; b \x7b\x7b c \x7d\x7d d".toList 0
      "é\x7d@let x = \x7b\x7b a; b \x7b\x7b c \x7d\x7d d".toList := by
    refine .here (show readRegion 0 _ = .ok (_, []) from ?_)
    decide +kernel
  obtain ⟨hbraces, hbound, htext⟩ := interpolations_of_items hitems
  refine ⟨hitems, ?_, ?_, ?_⟩
  · exact hbraces _ _ hregion "é\x7d@let x = \x7b\x7b a; b ".toList _ [] (by decide)
  · exact hbound _ _ (List.mem_cons_of_mem _ List.mem_cons_self)
  · exact htext _ _ List.mem_cons_self

end KeyLint.Template
