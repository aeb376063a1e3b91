import KeyLint.Proofs.Template.Pieces
import KeyLint.Proofs.Template.Spans

/-!
# Regions written from pieces

A region is gone through twice: `readRegion` looks for its end, and `segments` divides it. The two
do not see the same pieces. Where the opening brace of a block stands directly before an
interpolation, `readRegion` takes the brace and the first brace of the interpolation for the opening
of one; it still ends the interpolation where it ends (`readsRegion_render`).
-/

namespace KeyLint.Template

/-! ## The end of a region -/

/-- The region at the beginning of a text is read as `region`, wherever the text begins. -/
def ReadsRegion (t region rest : Text) : Prop :=
  ∀ offset, readRegion offset t = .ok (region, rest)

/-- A text that ends a region: nothing, or markup. -/
def EndsRegion (t : Text) : Prop :=
  t = [] ∨ ∃ markup, t = '<' :: markup ∧ opensMarkup markup = true

theorem EndsRegion.head?_ne {t : Text} (h : EndsRegion t) : t.head? ≠ some '\x7b' := by
  rcases h with rfl | ⟨markup, rfl, _⟩
  · simp
  · simp

theorem cut?_interpolation {e : Text} (t : Text) (hfree : ¬ ['\x7d', '\x7d'] <:+: e)
    (hlast : e.getLast? ≠ some '\x7d') :
    Text.cut? "\x7d\x7d".toList (e ++ '\x7d' :: '\x7d' :: t) = some (e, t) := by
  refine (Text.cut?_eq_some_iff (by decide)).mpr ⟨by simp, ?_⟩
  exact Text.not_pair_infix_append hfree (by decide) (.inl hlast)

namespace ReadsRegion

variable {t region rest : Text}

theorem of_endsRegion (h : EndsRegion t) : ReadsRegion t [] t := by
  intro offset
  rcases h with rfl | ⟨markup, rfl, hopens⟩
  · simp [readRegion]
  · simp [readRegion, hopens]

theorem cons {c : Char} (hmarkup : c ≠ '<') (hopen : ¬ (c = '\x7b' ∧ t.head? = some '\x7b'))
    (h : ReadsRegion t region rest) : ReadsRegion (c :: t) (c :: region) rest := by
  intro offset
  rw [readRegion]
  simp [hopen, hmarkup, h (offset + c.utf8Size)]

theorem interpolation {e : Text} (hfree : ¬ ['\x7d', '\x7d'] <:+: e)
    (hlast : e.getLast? ≠ some '\x7d') (h : ReadsRegion t region rest) :
    ReadsRegion ('\x7b' :: '\x7b' :: (e ++ '\x7d' :: '\x7d' :: t))
      ('\x7b' :: '\x7b' :: (e ++ '\x7d' :: '\x7d' :: region)) rest := by
  intro offset
  have hcut := cut?_interpolation t hfree hlast
  rw [readRegion]
  simp only [List.head?_cons, decide_true, Bool.and_self, if_true]
  split
  · next hnone =>
      rw [List.drop_one, List.tail_cons, hcut] at hnone
      cases hnone
  · next body tail hsome =>
      rw [List.drop_one, List.tail_cons, hcut] at hsome
      cases hsome
      rw [h _]
      simp

end ReadsRegion

/-- A text that `readRegion` goes through character by character, whatever follows it. -/
structure IsPlain (s : Text) : Prop where
  noMarkup : '<' ∉ s
  noInterpolation : ¬ ['\x7b', '\x7b'] <:+: s
  last : s.getLast? ≠ some '\x7b'

theorem IsPlain.readsRegion {s t region rest : Text} (hs : IsPlain s)
    (h : ReadsRegion t region rest) : ReadsRegion (s ++ t) (s ++ region) rest := by
  induction s with
  | nil => exact h
  | cons c s ih =>
      obtain ⟨hmarkup, hopen, hlast⟩ := hs
      rw [List.mem_cons, not_or] at hmarkup
      cases s with
      | nil => exact h.cons (Ne.symm hmarkup.1) fun hc => hlast (by simp [hc.1])
      | cons d s =>
          have hd : ¬ (c = '\x7b' ∧ d = '\x7b') := fun hcd => hopen ⟨[], s, by simp [hcd]⟩
          refine ReadsRegion.cons (Ne.symm hmarkup.1) (by simpa using hd) (ih ⟨hmarkup.2, ?_, ?_⟩)
          · exact fun hin => hopen (hin.trans (List.suffix_cons c _).isInfix)
          · simpa using hlast

theorem IsPlain.of_not_mem {s : Text} (hmarkup : '<' ∉ s) (hopen : '\x7b' ∉ s) : IsPlain s :=
  ⟨hmarkup, Text.not_pair_infix_of_not_mem hopen, fun h => hopen (List.mem_of_getLast? h)⟩

theorem IsPlain.append {s t : Text} (hs : IsPlain s) (ht : IsPlain t) : IsPlain (s ++ t) := by
  obtain ⟨hsmarkup, hsopen, hslast⟩ := hs
  obtain ⟨htmarkup, htopen, htlast⟩ := ht
  refine ⟨by simp [hsmarkup, htmarkup], Text.not_pair_infix_append hsopen htopen (.inl hslast), ?_⟩
  rw [List.getLast?_append]
  cases hlast : t.getLast? with
  | none => simpa using hslast
  | some c => simpa [hlast] using htlast

theorem IsPlain.brace {s : Text} (hs : IsPlain s) (hne : s ≠ []) (hhead : s.head? ≠ some '\x7b') :
    IsPlain ('\x7b' :: s) := by
  obtain ⟨hmarkup, hopen, hlast⟩ := hs
  refine ⟨by simp [hmarkup], ?_, ?_⟩
  · exact Text.not_pair_infix_append (s := ['\x7b']) (by decide) hopen (.inr hhead)
  · cases s with
    | nil => exact absurd rfl hne
    | cons c s => simpa using hlast

theorem isPlain_blanks {blanks : Text} (h : ∀ c ∈ blanks, Text.isAsciiBlank c = true) :
    IsPlain blanks :=
  .of_not_mem (fun hc => absurd (h _ hc) (by decide)) (fun hc => absurd (h _ hc) (by decide))

theorem Condition.isPlain (condition : Condition) : IsPlain condition.render := by
  have hinner : IsPlain (condition.inner ++ [')']) := by
    refine ⟨by simp [condition.noMarkup], ?_, by simp⟩
    exact Text.not_pair_infix_append condition.noInterpolation (by decide) (.inr (by decide))
  have hopen : IsPlain ['('] := .of_not_mem (by decide) (by decide)
  simpa [Condition.render] using (hopen.append hinner).append (isPlain_blanks condition.blank)

theorem Keyword.isPlain : (keyword : Keyword) → IsPlain keyword.render
  | .word w hw => by
      have hwords : ∀ w ∈ blockKeywords, '<' ∉ w ∧ '\x7b' ∉ w := by decide
      exact .of_not_mem (hwords w hw).1 (hwords w hw).2
  | .elseIf blanks _ hblank => by
      have helse : IsPlain "else".toList := .of_not_mem (by decide) (by decide)
      have hif : IsPlain "if".toList := .of_not_mem (by decide) (by decide)
      exact (helse.append (isPlain_blanks hblank)).append hif

theorem Divider.isPlain_headerText (keyword : Keyword) {blanks : Text}
    (hblank : ∀ c ∈ blanks, Text.isAsciiBlank c = true) (condition : Option Condition) :
    IsPlain (headerText keyword blanks condition) := by
  refine keyword.isPlain.append ((isPlain_blanks hblank).append ?_)
  cases condition with
  | none => exact .of_not_mem (by decide) (by decide)
  | some condition => exact condition.isPlain

theorem IsPlain.at_append {s : Text} (hs : IsPlain s) : IsPlain ('@' :: s) :=
  IsPlain.append (s := ['@']) (.of_not_mem (by decide) (by decide)) hs

/-- A piece that is plain is read through, also with a brace before it. -/
theorem IsPlain.readsRegion_brace {s t region rest : Text} (hs : IsPlain s) (hne : s ≠ [])
    (hhead : s.head? ≠ some '\x7b') (h : ReadsRegion t region rest) :
    ReadsRegion (s ++ t) (s ++ region) rest ∧
      ReadsRegion ('\x7b' :: (s ++ t)) ('\x7b' :: (s ++ region)) rest :=
  ⟨hs.readsRegion h, (hs.brace hne hhead).readsRegion h⟩

/-- A region as it is written from its pieces. -/
def renderRegion (pieces : List RegionPiece) : Text :=
  pieces.flatMap RegionPiece.render

@[simp] theorem renderRegion_cons (piece : RegionPiece) (pieces : List RegionPiece) :
    renderRegion (piece :: pieces) = piece.render ++ renderRegion pieces := rfl

/-- A region written from pieces is read up to what ends it. The same holds with the opening brace
of a block before it, which is what the induction needs. -/
theorem readsRegion_render (pieces : List RegionPiece) {rest : Text} (hrest : EndsRegion rest) :
    ReadsRegion (renderRegion pieces ++ rest) (renderRegion pieces) rest ∧
      ReadsRegion ('\x7b' :: (renderRegion pieces ++ rest)) ('\x7b' :: renderRegion pieces)
        rest := by
  induction pieces with
  | nil =>
      have hend := ReadsRegion.of_endsRegion hrest
      exact ⟨hend, hend.cons (by decide) fun h => hrest.head?_ne h.2⟩
  | cons piece pieces ih =>
      obtain ⟨hplain, hbrace⟩ := ih
      simp only [renderRegion_cons, List.append_assoc]
      cases piece with
      | inline i =>
          cases i with
          | text t hne ht =>
              refine IsPlain.readsRegion_brace ?_ hne ?_ hplain
              · exact .of_not_mem (fun hc => (ht _ hc).1 rfl) (fun hc => (ht _ hc).2.1 rfl)
              · exact fun hc => (ht _ (List.mem_of_head? hc)).2.1 rfl
          | interpolation e hfree hlast =>
              simp only [RegionPiece.render, Inline.render, List.cons_append, List.append_assoc,
                List.nil_append]
              refine ⟨hplain.interpolation hfree hlast, ?_⟩
              -- The brace before the interpolation and its first brace open it.
              refine ReadsRegion.interpolation (e := '\x7b' :: e) ?_ ?_ hplain
              · exact Text.not_pair_infix_append (s := ['\x7b']) (by decide) hfree (.inl (by decide))
              · cases e with
                | nil => simp
                | cons c e => simpa using hlast
      | divider d =>
          cases d with
          | header keyword blanks hblank condition =>
              have hheader := (Divider.isPlain_headerText keyword hblank condition).at_append
              have hboth := hheader.readsRegion_brace (by simp) (by simp) hbrace
              simpa [RegionPiece.render, Divider.render] using hboth
          | declaration d hword hend hmarkup hfree =>
              have hlet : IsPlain "@let".toList := .of_not_mem (by decide) (by decide)
              have hd : IsPlain (d ++ [';']) :=
                ⟨by simp [hmarkup], Text.not_pair_infix_append hfree (by decide) (.inr (by decide)),
                  by simp⟩
              exact (hlet.append hd).readsRegion_brace (by simp) (by simp) hplain
          | closing =>
              refine IsPlain.readsRegion_brace ?_ (by decide) (by decide) hplain
              exact .of_not_mem (by decide) (by decide)

/-! ## Control flow -/

theorem Balanced.afterParens_append {s : Text} (h : Balanced s) (depth : Nat) (t : Text) :
    afterParens depth (s ++ t) = afterParens depth t := by
  induction h generalizing depth t with
  | nil => rfl
  | char hopen hclose _ ih =>
      rw [List.cons_append, afterParens]
      · exact ih depth t
      · exact hopen
      · exact fun _ hc => hclose hc
      · exact fun _ _ hc => hclose hc
  | group _ _ ihs iht =>
      rw [List.cons_append, List.append_assoc, afterParens, ihs, List.cons_append, afterParens]
      exact iht depth t

theorem skipBlanks_append {blanks t : Text} (h : ∀ c ∈ blanks, Text.isAsciiBlank c = true)
    (ht : ∀ c ∈ t.head?, Text.isAsciiBlank c = false) : skipBlanks (blanks ++ t) = t :=
  Text.dropWhile_append_of_head? h ht

/-- What stands in a header after its keyword and blanks: the condition, if there is one, and the
opening brace. -/
def headerEnd (condition : Option Condition) (t : Text) : Text :=
  (condition.map Condition.render).getD [] ++ '\x7b' :: t

theorem forall_head?_headerEnd {p : Char → Bool} (hopen : p '(' = false) (hbrace : p '\x7b' = false)
    (condition : Option Condition) (t : Text) :
    ∀ c ∈ (headerEnd condition t).head?, p c = false := by
  intro c hc
  cases condition with
  | none =>
      cases hc
      exact hbrace
  | some condition =>
      cases hc
      exact hopen

theorem afterCondition_headerEnd (condition : Option Condition) (t : Text) :
    afterCondition (headerEnd condition t) = '\x7b' :: t := by
  cases condition with
  | none => rfl
  | some condition =>
      simp only [headerEnd, Option.map_some, Option.getD_some, Condition.render, List.cons_append,
        List.append_assoc, afterCondition]
      rw [condition.balanced.afterParens_append, afterParens]
      exact skipBlanks_append condition.blank (by simp [Text.isAsciiBlank])

theorem afterElseIf_headerEnd (keyword : Text) (condition : Option Condition) (t : Text) :
    afterElseIf keyword (headerEnd condition t) = headerEnd condition t := by
  have hnone : Text.after? "if".toList (headerEnd condition t) = none := by
    rw [Text.after?_eq_none_iff]
    rintro ⟨u, hu⟩
    have hi : (headerEnd condition t).head? = some 'i' := by rw [← hu]; rfl
    have hne := forall_head?_headerEnd (p := (· = 'i')) rfl rfl condition t 'i' hi
    simp at hne
  unfold afterElseIf
  rw [hnone, ite_self]

theorem afterControlFlow?_of_keyword {keyword rest body : Text}
    (hkeyword : keyword ∈ blockKeywords) (hrest : ∀ c ∈ rest.head?, Text.isAsciiLetter c = false)
    (h : afterCondition (afterElseIf keyword (skipBlanks rest)) = '\x7b' :: body) :
    afterControlFlow? (keyword ++ rest) = some body := by
  have hwords : ∀ w ∈ blockKeywords, w.all Text.isAsciiLetter = true ∧ w ≠ "let".toList := by
    decide
  obtain ⟨hall, hlet⟩ := hwords keyword hkeyword
  have hletters := List.all_eq_true.mp hall
  simp only [afterControlFlow?, Text.takeWhile_append_of_head? hletters hrest,
    Text.dropWhile_append_of_head? hletters hrest, hlet, if_false,
    List.contains_iff_mem.mpr hkeyword, if_true, h]

theorem not_isAsciiLetter_of_isAsciiBlank {c : Char} (h : Text.isAsciiBlank c = true) :
    Text.isAsciiLetter c = false := by
  simp only [Text.isAsciiBlank, Bool.or_eq_true, decide_eq_true_eq] at h
  rcases h with (((rfl | rfl) | rfl) | rfl) | rfl <;> rfl

theorem not_isAsciiLetter_head?_blanks {blanks t : Text}
    (hblank : ∀ c ∈ blanks, Text.isAsciiBlank c = true)
    (ht : ∀ c ∈ t.head?, Text.isAsciiLetter c = false) :
    ∀ c ∈ (blanks ++ t).head?, Text.isAsciiLetter c = false := by
  intro c hc
  cases blanks with
  | nil => exact ht c hc
  | cons b blanks =>
      cases hc
      exact not_isAsciiLetter_of_isAsciiBlank (hblank _ List.mem_cons_self)

theorem afterControlFlow?_header (keyword : Keyword) {blanks : Text}
    (hblank : ∀ c ∈ blanks, Text.isAsciiBlank c = true) (condition : Option Condition) (t : Text) :
    afterControlFlow? (Divider.headerText keyword blanks condition ++ '\x7b' :: t) = some t := by
  have hletter : ∀ c ∈ (headerEnd condition t).head?, Text.isAsciiLetter c = false :=
    forall_head?_headerEnd rfl rfl condition t
  have hskip : skipBlanks (blanks ++ headerEnd condition t) = headerEnd condition t :=
    skipBlanks_append hblank (forall_head?_headerEnd rfl rfl condition t)
  cases keyword with
  | word w hw =>
      have hend : afterCondition (afterElseIf w (skipBlanks (blanks ++ headerEnd condition t)))
          = '\x7b' :: t := by
        rw [hskip, afterElseIf_headerEnd, afterCondition_headerEnd]
      have h := afterControlFlow?_of_keyword hw (not_isAsciiLetter_head?_blanks hblank hletter) hend
      simpa [Divider.headerText, Keyword.render, headerEnd] using h
  | elseIf between hne hbetween =>
      have helse : "else".toList ∈ blockKeywords := by decide
      have hif : skipBlanks (between ++ ("if".toList ++ (blanks ++ headerEnd condition t)))
          = "if".toList ++ (blanks ++ headerEnd condition t) :=
        skipBlanks_append hbetween (by simp [Text.isAsciiBlank])
      have hend : afterCondition (afterElseIf "else".toList
          (skipBlanks (between ++ ("if".toList ++ (blanks ++ headerEnd condition t)))))
          = '\x7b' :: t := by
        rw [hif, afterElseIf, if_pos rfl, Text.after?_append]
        simp only
        rw [hskip, afterCondition_headerEnd]
      obtain ⟨b, bs, rfl⟩ := List.exists_cons_of_ne_nil hne
      have hhead : ∀ c ∈ (b :: bs ++ ("if".toList ++ (blanks ++ headerEnd condition t))).head?,
          Text.isAsciiLetter c = false := by
        intro c hc
        cases hc
        exact not_isAsciiLetter_of_isAsciiBlank (hbetween _ List.mem_cons_self)
      have h := afterControlFlow?_of_keyword helse hhead hend
      simpa [Divider.headerText, Keyword.render, headerEnd] using h

theorem afterControlFlow?_declaration {d : Text} (t : Text)
    (hword : ∀ c ∈ d.head?, Text.isAsciiLetter c = false) (hend : ';' ∉ d) :
    afterControlFlow? ("let".toList ++ (d ++ ';' :: t)) = some t := by
  have hletters : ∀ c ∈ "let".toList, Text.isAsciiLetter c = true := List.all_eq_true.mp rfl
  have hhead : ∀ c ∈ (d ++ ';' :: t).head?, Text.isAsciiLetter c = false := by
    cases d with
    | nil => simp [Text.isAsciiLetter]
    | cons c d => exact hword
  have hdrop : (d ++ ';' :: t).dropWhile (· ≠ ';') = ';' :: t := by
    refine Text.dropWhile_append_of_head? ?_ (by simp)
    intro c hc
    simp only [ne_eq, decide_not, Bool.not_eq_eq_eq_not, Bool.not_true, decide_eq_false_iff_not]
    rintro rfl
    exact hend hc
  simp only [afterControlFlow?, Text.takeWhile_append_of_head? hletters hhead,
    Text.dropWhile_append_of_head? hletters hhead, if_true, hdrop, List.drop_one, List.tail_cons]

theorem afterControlFlow?_tail_render (d : Divider) (h : d.render.head? = some '@') (t : Text) :
    afterControlFlow? (d.render.tail ++ t) = some t := by
  cases d with
  | header keyword blanks hblank condition =>
      simpa [Divider.render] using afterControlFlow?_header keyword hblank condition t
  | declaration d hword hend hmarkup hfree =>
      simpa [Divider.render] using afterControlFlow?_declaration t hword hend
  | closing => cases h

/-! ## Segments -/

theorem prepend_prepend (offset offset' : Nat) (s t : Text) (rest : List Segment) :
    prepend offset s (prepend offset' t rest) = prepend offset (s ++ t) rest := by
  cases rest with
  | nil => rfl
  | cons segment rest => simp [prepend]

theorem prepend_nil_segments (offset : Nat) (t : Text) :
    prepend offset [] (segments offset t) = segments offset t := by
  generalize hrest : segments offset t = rest
  have hdivided := divided_segments offset t
  rw [hrest] at hdivided
  cases hdivided with
  | last => rfl
  | cons s between _ => rfl

theorem segments_cons {c : Char} (offset : Nat) (t : Text) (hopen : c ≠ '\x7b') (hat : c ≠ '@')
    (hclose : c ≠ '\x7d') :
    segments offset (c :: t) = prepend offset [c] (segments (offset + c.utf8Size) t) := by
  rw [segments]
  simp [hopen, hat, hclose]

theorem segments_text {s : Text} (hne : s ≠ [])
    (hs : ∀ c ∈ s, c ≠ '<' ∧ c ≠ '\x7b' ∧ c ≠ '\x7d' ∧ c ≠ '@') (offset : Nat) (t : Text) :
    segments offset (s ++ t) = prepend offset s (segments (offset + Text.bytes s) t) := by
  induction s generalizing offset with
  | nil => exact absurd rfl hne
  | cons c s ih =>
      obtain ⟨_, hopen, hclose, hat⟩ := hs c List.mem_cons_self
      rw [List.cons_append, segments_cons _ _ hopen hat hclose]
      cases s with
      | nil => rfl
      | cons d s =>
          rw [ih (List.cons_ne_nil d s) fun x hx => hs x (List.mem_cons_of_mem c hx),
            prepend_prepend, Text.bytes_cons c, ← Nat.add_assoc]
          rfl

theorem segments_inline (i : Inline) (offset : Nat) (t : Text) :
    segments offset (i.render ++ t)
      = prepend offset i.render (segments (offset + Text.bytes i.render) t) := by
  cases i with
  | text s hne hs => exact segments_text hne hs offset t
  | interpolation e hfree hlast =>
      have hcut := cut?_interpolation t hfree hlast
      simp only [Inline.render, List.cons_append, List.append_assoc, List.nil_append]
      rw [segments]
      simp only [List.head?_cons, decide_true, Bool.and_self, if_true]
      split
      · next body rest hsome =>
          rw [List.drop_one, List.tail_cons, hcut] at hsome
          cases hsome
          simp
      · next hnone =>
          rw [List.drop_one, List.tail_cons, hcut] at hnone
          cases hnone

theorem segments_divider (d : Divider) (offset : Nat) (t : Text) :
    segments offset (d.render ++ t) = ⟨offset, []⟩ :: segments (offset + Text.bytes d.render) t := by
  by_cases hat : d.render.head? = some '@'
  · have hafter := afterControlFlow?_tail_render d hat t
    obtain ⟨tail, htail⟩ := List.head?_eq_some_iff.mp hat
    rw [htail, List.tail_cons] at hafter
    rw [htail, List.cons_append, segments]
    simp only [show ('@' = '\x7b') = False by decide, decide_false, Bool.false_and, Bool.false_eq_true,
      if_false, if_true]
    split
    · next rest hsome =>
        rw [hafter] at hsome
        cases hsome
        have hbytes : Text.bytes ('@' :: (tail ++ t)) - Text.bytes t = Text.bytes ('@' :: tail) := by
          simp only [Text.bytes_cons, Text.bytes_append]
          omega
        rw [hbytes]
    · next hnone =>
        rw [hafter] at hnone
        cases hnone
  · cases d with
    | header keyword blanks hblank condition => exact absurd rfl hat
    | declaration d hword hend hmarkup hfree => exact absurd rfl hat
    | closing =>
        rw [Divider.render, List.cons_append, segments]
        simp

/-! ## Runs -/

theorem trim_pair_infix_iff {a : Char} (ha : Text.isBlank a = false) (t : Text) :
    [a, a] <:+: Text.trim t ↔ [a, a] <:+: t := by
  obtain ⟨rest, ht, hrest⟩ := Text.eq_append_trim t
  constructor
  · intro h
    rw [ht]
    exact h.trans ⟨_, rest, rfl⟩
  · intro h
    by_contra htrim
    have hlead : a ∉ t.takeWhile Text.isBlank := by
      intro hmem
      rw [List.mem_takeWhile_imp hmem] at ha
      cases ha
    have hend : a ∉ rest := by
      intro hmem
      rw [hrest a hmem] at ha
      cases ha
    rw [ht] at h
    refine Text.not_pair_infix_append (Text.not_pair_infix_append
      (Text.not_pair_infix_of_not_mem hlead) htrim (.inl ?_))
      (Text.not_pair_infix_of_not_mem hend) (.inr ?_) h
    · exact fun hlast => hlead (List.mem_of_getLast? hlast)
    · exact fun hhead => hend (List.mem_of_head? hhead)

theorem Run.pair_infix_text_iff (run : Run) :
    ['\x7b', '\x7b'] <:+: run.text ↔ run.pieces.any Inline.isInterpolation = true := by
  constructor
  · intro h
    by_contra hnone
    have hmem : '\x7b' ∈ run.text := h.subset List.mem_cons_self
    obtain ⟨i, hi, hmem⟩ := List.mem_flatMap.mp hmem
    cases i with
    | text t hne ht => exact (ht _ hmem).2.1 rfl
    | interpolation e hfree hlast => exact hnone (List.any_eq_true.mpr ⟨_, hi, rfl⟩)
  · intro h
    obtain ⟨i, hi, hinterpolation⟩ := List.any_eq_true.mp h
    obtain ⟨before, after, hsplit⟩ := List.append_of_mem hi
    cases i with
    | text t hne ht => cases hinterpolation
    | interpolation e hfree hlast =>
        refine ⟨before.flatMap Inline.render,
          e ++ '\x7d' :: '\x7d' :: after.flatMap Inline.render, ?_⟩
        simp [Run.text, hsplit, Inline.render]

/-- A run has the item of the segment with its text. -/
theorem Run.items_eq (run : Run) :
    run.items = (Segment.item? ⟨run.start, run.text⟩).toList := by
  have hbound : Text.occursIn "\x7b\x7b".toList (Text.trim run.text)
      = run.pieces.any Inline.isInterpolation := by
    rw [Bool.eq_iff_iff, Text.occursIn_iff_infix, ← run.pair_infix_text_iff]
    exact trim_pair_infix_iff (by decide) run.text
  unfold Run.items Segment.item?
  simp only [hbound, List.isEmpty_iff]
  split
  · rfl
  · split
    · rfl
    · rfl

/-- The items of a region written from pieces, after a run that may still go on, are those of its
segments. -/
theorem itemsAfter_region {tail : List Piece} {after : Nat → List Item}
    (htail : ∀ run, itemsAfter run tail = run.items ++ after run.stop)
    (pieces : List RegionPiece) (run : Run) :
    itemsAfter run (pieces.map .region ++ tail)
      = (prepend run.start run.text (segments run.stop (renderRegion pieces))).filterMap Segment.item?
        ++ after (run.stop + Text.bytes (renderRegion pieces)) := by
  induction pieces generalizing run with
  | nil =>
      rw [List.map_nil, List.nil_append, htail, run.items_eq]
      simp [renderRegion, segments, prepend, List.filterMap_eq_flatMap_toList]
  | cons piece pieces ih =>
      cases piece with
      | inline i =>
          have htext : (run.add i).text = run.text ++ i.render := by simp [Run.add, Run.text]
          have hstop : (run.add i).stop = run.stop + Text.bytes i.render := by
            rw [Run.stop, htext, Text.bytes_append, ← Nat.add_assoc]
            rfl
          rw [List.map_cons, List.cons_append, itemsAfter, ih, hstop, htext, renderRegion_cons,
            RegionPiece.render, segments_inline, prepend_prepend, Text.bytes_append, Nat.add_assoc]
          rfl
      | divider d =>
          have htext : Run.text { start := run.stop + Text.bytes d.render } = [] := rfl
          have hstop : Run.stop { start := run.stop + Text.bytes d.render }
              = run.stop + Text.bytes d.render := rfl
          rw [List.map_cons, List.cons_append, itemsAfter, ih, htext, hstop, prepend_nil_segments,
            renderRegion_cons, RegionPiece.render, segments_divider, run.items_eq, Text.bytes_append,
            ← Nat.add_assoc]
          simp [prepend, List.filterMap_eq_flatMap_toList]

end KeyLint.Template
