import KeyLint.Proofs.Template.Interpolations
import KeyLint.Proofs.Template.RoundTrip

/-!
# Headers of blocks

The header of a block divides texts and becomes none, if the reader sees where it ends. Two things
can hide its end. Markup is looked for before headers are, so that a `<` in the condition may open a
tag; and the parentheses of the condition are counted without regard to the string literals in it.
-/

namespace KeyLint.Template

/-! ## Blocks -/

/-- The header of a block with a condition, up to its opening brace. -/
def blockHeader (keyword condition : Text) : Text :=
  '@' :: (keyword ++ (" (".toList ++ (condition ++ ") \x7b".toList)))

/-- A block with a condition and some text in it. -/
def block (keyword condition body : Text) : Text :=
  blockHeader keyword condition ++ (body ++ ['\x7d'])

/-- The only item of a block is the text in it, without the blanks around it. -/
def ReadsBody (keyword condition body : Text) : Prop :=
  let start := Text.bytes (blockHeader keyword condition)
    + Text.bytes (body.takeWhile Text.isBlank)
  items (block keyword condition body)
    = .ok [.text (decodeEntities (Text.trim body)) ⟨start, start + Text.bytes (Text.trim body)⟩]

/-- The parentheses of an expression match, those in its string literals aside. -/
inductive BalancedCode : Text → Prop
  | nil : BalancedCode []
  | char {c : Char} {t : Text} (hopen : c ≠ '(') (hclose : c ≠ ')') (hsingle : c ≠ '\'')
      (hdouble : c ≠ '"') (ht : BalancedCode t) : BalancedCode (c :: t)
  | group {s t : Text} (hs : BalancedCode s) (ht : BalancedCode t) :
      BalancedCode ('(' :: (s ++ ')' :: t))
  | string {quote : Char} {s t : Text} (hquote : quote = '\'' ∨ quote = '"')
      (hs : ∀ c ∈ s, c ≠ quote ∧ c ≠ '\\') (ht : BalancedCode t) :
      BalancedCode (quote :: (s ++ quote :: t))

/-! ## Markup in a text -/

/-- Some `<` in a text opens markup. -/
def hasMarkup : Text → Bool
  | [] => false
  | c :: t => (c = '<' && opensMarkup t) || hasMarkup t

theorem hasMarkup_append_of_not_mem {s : Text} (hs : '<' ∉ s) (t : Text) :
    hasMarkup (s ++ t) = hasMarkup t := by
  induction s with
  | nil => rfl
  | cons c s ih =>
      rw [List.mem_cons, not_or] at hs
      simp [hasMarkup, Ne.symm hs.1, ih hs.2]

theorem hasMarkup_append_of_opens_eq_false (s : Text) {t : Text} (hopens : opensMarkup t = false)
    (ht : '<' ∉ t) : hasMarkup (s ++ t) = hasMarkup s := by
  induction s with
  | nil => simpa [hasMarkup] using hasMarkup_append_of_not_mem ht []
  | cons c s ih =>
      have hnext : opensMarkup (s ++ t) = opensMarkup s := by
        cases s with
        | nil => exact hopens
        | cons d s => rfl
      rw [List.cons_append, hasMarkup, hasMarkup, hnext, ih]

/-- A character that opens neither an interpolation nor markup is read through. -/
theorem ReadsRegion.cons_of_opens_eq_false {c : Char} {t region rest : Text}
    (hmarkup : (c = '<' && opensMarkup t) = false) (hfree : ¬ ['\x7b', '\x7b'] <:+: c :: t)
    (h : ReadsRegion t region rest) : ReadsRegion (c :: t) (c :: region) rest := by
  have hpair : (c = '\x7b' && t.head? = some '\x7b') = false := by
    rw [Bool.and_eq_false_iff, decide_eq_false_iff_not, decide_eq_false_iff_not]
    refine or_iff_not_imp_left.mpr fun hc hhead => hfree ?_
    obtain ⟨rest, rfl⟩ := List.head?_eq_some_iff.mp hhead
    exact ⟨[], rest, by rw [not_not.mp hc]; rfl⟩
  intro offset
  rw [readRegion, hpair, hmarkup, h (offset + c.utf8Size)]
  rfl

/-- A text without markup and interpolations is a region as a whole. -/
theorem readsRegion_of_hasMarkup_eq_false {t : Text} (hmarkup : hasMarkup t = false)
    (hfree : ¬ ['\x7b', '\x7b'] <:+: t) : ReadsRegion t t [] := by
  induction t with
  | nil => exact .of_endsRegion (.inl rfl)
  | cons c t ih =>
      rw [hasMarkup, Bool.or_eq_false_iff] at hmarkup
      have hrest := ih hmarkup.2 fun h => hfree (h.trans (List.suffix_cons c t).isInfix)
      exact hrest.cons_of_opens_eq_false hmarkup.1 hfree

/-- Without interpolations a region ends at the first `<` that opens markup. -/
theorem exists_readsRegion_of_hasMarkup {t : Text} (hmarkup : hasMarkup t = true)
    (hfree : ¬ ['\x7b', '\x7b'] <:+: t) :
    ∃ region markup, t = region ++ '<' :: markup ∧ ReadsRegion t region ('<' :: markup) := by
  induction t with
  | nil => cases hmarkup
  | cons c t ih =>
      cases hopens : (c = '<' && opensMarkup t : Bool) with
      | true =>
          obtain ⟨hc, hopens⟩ := Bool.and_eq_true_iff.mp hopens
          obtain rfl := of_decide_eq_true hc
          exact ⟨[], t, rfl, .of_endsRegion (.inr ⟨t, rfl, hopens⟩)⟩
      | false =>
          rw [hasMarkup, hopens, Bool.false_or] at hmarkup
          obtain ⟨region, markup, ht, hread⟩ :=
            ih hmarkup fun h => hfree (h.trans (List.suffix_cons c t).isInfix)
          exact ⟨c :: region, markup, congrArg _ ht, hread.cons_of_opens_eq_false hopens hfree⟩

/-! ## The end of a header -/

theorem afterElseIf_of_head? {t : Text} (keyword : Text) (h : t.head? ≠ some 'i') :
    afterElseIf keyword t = t := by
  have hnone : Text.after? "if".toList t = none := by
    rw [Text.after?_eq_none_iff]
    rintro ⟨u, rfl⟩
    exact h rfl
  unfold afterElseIf
  rw [hnone, ite_self]

/-- A header ends at the brace after the parenthesis that closes its condition. -/
theorem afterControlFlow?_condition_iff {keyword : Text} (hkeyword : keyword ∈ blockKeywords)
    {t body : Text} :
    afterControlFlow? (keyword ++ (" (".toList ++ t)) = some body
      ↔ skipBlanks (afterParens 0 t) = '\x7b' :: body := by
  have hwords : ∀ w ∈ blockKeywords, w.all Text.isAsciiLetter = true ∧ w ≠ "let".toList := by
    decide
  obtain ⟨hall, hlet⟩ := hwords keyword hkeyword
  have hletters := List.all_eq_true.mp hall
  have hblank : ∀ c ∈ (" (".toList ++ t).head?, Text.isAsciiLetter c = false := by
    rintro c ⟨⟩
    rfl
  have hskip : skipBlanks (" (".toList ++ t) = '(' :: t := rfl
  simp only [afterControlFlow?, Text.takeWhile_append_of_head? hletters hblank,
    Text.dropWhile_append_of_head? hletters hblank, hlet, if_false,
    List.contains_iff_mem.mpr hkeyword, if_true, hskip]
  rw [afterElseIf_of_head? keyword (by simp), afterCondition]
  split
  · next found => simp [found]
  · next hnone => simpa using hnone body

/-- A text with `depth` closing parentheses too many, each of them after a balanced part. -/
inductive Closes : (depth : Nat) → Text → Prop
  | balanced {s : Text} (hs : Balanced s) : Closes 0 s
  | close {depth : Nat} {s t : Text} (hs : Balanced s) (ht : Closes depth t) :
      Closes (depth + 1) (s ++ ')' :: t)

namespace Closes

theorem char {depth : Nat} {t : Text} {c : Char} (hopen : c ≠ '(') (hclose : c ≠ ')')
    (h : Closes depth t) : Closes depth (c :: t) := by
  cases h with
  | balanced hs => exact .balanced (.char hopen hclose hs)
  | close hs ht => exact .close (.char hopen hclose hs) ht

theorem group {depth : Nat} {s t : Text} (hs : Balanced s) (h : Closes depth t) :
    Closes depth ('(' :: (s ++ ')' :: t)) := by
  cases h with
  | balanced ht => exact .balanced (.group hs ht)
  | close ht hu =>
      have hgroup := close (.group hs ht) hu
      simpa using hgroup

end Closes

/-- What is left after a closing parenthesis comes after text that the parentheses before it leave
balanced. -/
theorem exists_closes_of_afterParens {depth : Nat} {t : Text} (h : afterParens depth t ≠ []) :
    ∃ s, Closes depth s ∧ t = s ++ ')' :: afterParens depth t := by
  fun_induction afterParens depth t with
  | case1 => exact absurd rfl h
  | case2 depth cs ih =>
      obtain ⟨s, hs, heq⟩ := ih h
      cases hs with
      | close ha hb => exact ⟨_, .group ha hb, by simpa using heq⟩
  | case3 cs => exact ⟨[], .balanced .nil, rfl⟩
  | case4 depth cs ih =>
      obtain ⟨s, hs, heq⟩ := ih h
      exact ⟨')' :: s, .close (s := []) .nil hs, congrArg _ heq⟩
  | case5 depth c cs hopen hzero hsucc ih =>
      obtain ⟨s, hs, heq⟩ := ih h
      have hclose : c ≠ ')' := by
        rintro rfl
        cases depth with
        | zero => exact hzero rfl rfl
        | succ depth => exact hsucc depth rfl rfl
      exact ⟨c :: s, hs.char hopen hclose, congrArg _ heq⟩

theorem block_eq (keyword condition body : Text) :
    block keyword condition body
      = '@' :: (keyword ++ (" (".toList ++ (condition ++ (") \x7b".toList ++ (body ++ ['\x7d']))))) := by
  simp [block, blockHeader]

theorem afterControlFlow?_of_balanced {keyword condition : Text}
    (hkeyword : keyword ∈ blockKeywords) (hcondition : Balanced condition) (t : Text) :
    afterControlFlow? (keyword ++ (" (".toList ++ (condition ++ (") \x7b".toList ++ t))))
      = some t := by
  rw [afterControlFlow?_condition_iff hkeyword, hcondition.afterParens_append]
  rfl

/-- The last closing parenthesis of a text that ends in other characters is unique. -/
theorem eq_of_append_close {s t u v : Text} (hu : ')' ∉ u) (hv : ')' ∉ v)
    (h : s ++ ')' :: u = t ++ ')' :: v) : s = t := by
  rcases List.append_eq_append_iff.mp h with ⟨w, rfl, hw⟩ | ⟨w, rfl, hw⟩
  · cases w with
    | nil => exact (List.append_nil s).symm
    | cons c w =>
        rw [List.cons_append, List.cons.injEq] at hw
        exact absurd (hw.2 ▸ by simp) hu
  · cases w with
    | nil => exact List.append_nil t
    | cons c w =>
        rw [List.cons_append, List.cons.injEq] at hw
        exact absurd (hw.2 ▸ by simp) hv

/-- If the only opening brace of a text is the one after the condition, a header that is found has
found it, and then the parentheses of the condition match. -/
theorem balanced_of_afterControlFlow? {keyword condition body rest : Text}
    (hkeyword : keyword ∈ blockKeywords) (hcondition : '\x7b' ∉ condition) (hbody : '\x7b' ∉ body)
    (h : afterControlFlow?
      (keyword ++ (" (".toList ++ (condition ++ (") \x7b".toList ++ body)))) = some rest) :
    Balanced condition := by
  rw [afterControlFlow?_condition_iff hkeyword] at h
  generalize hr : afterParens 0 (condition ++ (") \x7b".toList ++ body)) = r at h
  have hne : r ≠ [] := by
    rintro rfl
    cases h
  obtain ⟨s, hs, heq⟩ := exists_closes_of_afterParens (hr ▸ hne)
  have hsplit : condition ++ ") ".toList ++ '\x7b' :: body
      = s ++ ')' :: r.takeWhile Text.isAsciiBlank ++ '\x7b' :: rest := by
    rw [List.append_assoc s, List.cons_append, ← h, skipBlanks, List.takeWhile_append_dropWhile,
      ← hr, ← heq, List.append_assoc]
    rfl
  have hclosed := ((List.append_cons_inj_of_notMem (by simpa using hcondition) hbody).mp hsplit).1
  have hblank : ')' ∉ r.takeWhile Text.isAsciiBlank := fun hmem =>
    absurd (List.mem_takeWhile_imp hmem) (by decide)
  cases hs with
  | balanced hs =>
      rw [eq_of_append_close (by decide) hblank hclosed]
      exact hs

/-! ## What is read of a block -/

section Block

variable {keyword condition body : Text}

theorem hasMarkup_block (hkeyword : keyword ∈ blockKeywords) (hbody : '<' ∉ body) :
    hasMarkup (block keyword condition body) = hasMarkup condition := by
  have hwords : ∀ w ∈ blockKeywords, '<' ∉ w := by decide
  have hstart : '<' ∉ '@' :: (keyword ++ " (".toList) := by simpa using hwords keyword hkeyword
  have hend : '<' ∉ ") \x7b".toList ++ (body ++ ['\x7d']) := by simpa using hbody
  rw [block_eq, ← List.append_assoc, ← List.cons_append, hasMarkup_append_of_not_mem hstart]
  exact hasMarkup_append_of_opens_eq_false condition rfl hend

theorem not_pair_infix_block (hkeyword : keyword ∈ blockKeywords)
    (hcondition : ¬ ['\x7b', '\x7b'] <:+: condition) (hbody : '\x7b' ∉ body) :
    ¬ ['\x7b', '\x7b'] <:+: block keyword condition body := by
  have hwords : ∀ w ∈ blockKeywords, '\x7b' ∉ w := by decide
  have hstart : '\x7b' ∉ '@' :: (keyword ++ " (".toList) := by
    simpa using hwords keyword hkeyword
  have hend : ¬ ['\x7b', '\x7b'] <:+: '\x7b' :: (body ++ ['\x7d']) := by
    refine Text.not_pair_infix_append (s := ['\x7b']) (by decide) ?_ (.inr ?_)
    · exact Text.not_pair_infix_of_not_mem (by simpa using hbody)
    · exact fun hhead => hbody (by simpa using List.mem_of_head? hhead)
  have hclose : ¬ ['\x7b', '\x7b'] <:+: ") ".toList ++ '\x7b' :: (body ++ ['\x7d']) :=
    Text.not_pair_infix_append (by decide) hend (.inl (by decide))
  have hinner := Text.not_pair_infix_append hcondition hclose (.inr (by simp))
  have hwhole := Text.not_pair_infix_append (Text.not_pair_infix_of_not_mem hstart) hinner
    (.inl fun hlast => hstart (List.mem_of_getLast? hlast))
  simpa [block_eq] using hwhole

theorem segments_controlFlow {t rest : Text} (h : afterControlFlow? t = some rest) (offset : Nat) :
    segments offset ('@' :: t)
      = ⟨offset, []⟩ :: segments (offset + (Text.bytes ('@' :: t) - Text.bytes rest)) rest := by
  rw [segments]
  simp only [show ('@' = '\x7b') = False by decide, decide_false, Bool.false_and, Bool.false_eq_true,
    if_false, if_true]
  split
  · next found hfound =>
      rw [h] at hfound
      cases hfound
      rfl
  · next hnone =>
      rw [h] at hnone
      cases hnone

theorem segments_at {t : Text} (h : afterControlFlow? t = none) (offset : Nat) :
    segments offset ('@' :: t) = prepend offset ['@'] (segments (offset + '@'.utf8Size) t) := by
  rw [segments]
  simp only [show ('@' = '\x7b') = False by decide, decide_false, Bool.false_and, Bool.false_eq_true,
    if_false, if_true]
  split
  · next found hfound =>
      rw [h] at hfound
      cases hfound
  · rfl

theorem ne_nil_of_trim_ne_nil {t : Text} (h : Text.trim t ≠ []) : t ≠ [] := by
  rintro rfl
  exact h rfl

/-- A block whose header is found has the item of the text in it, and no other. -/
theorem regionItems_block
    (hheader : afterControlFlow? (block keyword condition body).tail = some (body ++ ['\x7d']))
    (hbody : ∀ c ∈ body, c ≠ '<' ∧ c ≠ '\x7b' ∧ c ≠ '\x7d' ∧ c ≠ '@') (hne : Text.trim body ≠ []) :
    regionItems 0 (block keyword condition body)
      = (Segment.item? ⟨Text.bytes (blockHeader keyword condition), body⟩).toList := by
  have hcons : block keyword condition body = '@' :: (block keyword condition body).tail := rfl
  have hbytes : Text.bytes ('@' :: (block keyword condition body).tail)
      - Text.bytes (body ++ ['\x7d']) = Text.bytes (blockHeader keyword condition) := by
    rw [← hcons, block, Text.bytes_append, Nat.add_sub_cancel]
  have hclosing : ∀ offset, segments offset ['\x7d'] = [⟨offset, []⟩, ⟨offset + 1, []⟩] := by
    intro offset
    simp [segments]
    rfl
  rw [regionItems, hcons, segments_controlFlow hheader, hbytes,
    segments_text (ne_nil_of_trim_ne_nil hne) hbody, hclosing]
  have hempty : ∀ offset, Segment.item? ⟨offset, []⟩ = none := fun _ => rfl
  simp only [prepend, List.append_nil, List.filterMap_cons, hempty, List.filterMap_nil, Nat.zero_add]
  cases Segment.item? ⟨Text.bytes (blockHeader keyword condition), body⟩ <;> rfl

/-- A segment that begins with something to see has an item that begins with it. -/
theorem Segment.exists_item?_of_head? {segment : Segment} {c : Char}
    (hhead : segment.text.head? = some c) (hblank : Text.isBlank c = false) :
    ∃ item, segment.item? = some item ∧ item.span.start = segment.offset := by
  obtain ⟨t, ht⟩ := List.head?_eq_some_iff.mp hhead
  have hlead : segment.text.takeWhile Text.isBlank = [] := by simp [ht, hblank]
  have htrim : Text.trim segment.text ≠ [] := by
    obtain ⟨rest, heq, hrest⟩ := Text.eq_append_trim segment.text
    intro hnil
    rw [hlead, hnil, List.append_nil, List.nil_append, ht] at heq
    have hc := hrest c (heq ▸ List.mem_cons_self)
    rw [hblank] at hc
    cases hc
  unfold Segment.item?
  simp only [List.isEmpty_iff, htrim, if_false, hlead, Text.bytes_nil, Nat.add_zero]
  split
  · exact ⟨_, rfl, rfl⟩
  · exact ⟨_, rfl, rfl⟩

/-- A region that begins with an `@` but with no control flow begins with a text. -/
theorem exists_regionItems_eq_cons {t : Text} (h : afterControlFlow? t = none) :
    ∃ item more, regionItems 0 ('@' :: t) = item :: more ∧ item.span.start = 0 := by
  obtain ⟨first, more, hsegments, _⟩ := exists_segments_eq_cons (0 + '@'.utf8Size) t
  obtain ⟨item, hitem, hstart⟩ :=
    @Segment.exists_item?_of_head? ⟨0, '@' :: first⟩ '@' rfl (by decide)
  refine ⟨item, more.filterMap Segment.item?, ?_, hstart⟩
  rw [regionItems, segments_at h, hsegments]
  exact List.filterMap_cons_some hitem

/-- The first item of a template begins with it, if its first region does with an `@` that is no
control flow. -/
theorem exists_items_eq_cons {t u rest : Text} {found : List Item}
    (hregion : ReadsRegion ('@' :: t) ('@' :: u) rest) (hnone : afterControlFlow? u = none)
    (hfound : items ('@' :: t) = .ok found) :
    ∃ item more, found = item :: more ∧ item.span.start = 0 := by
  obtain ⟨item, more, hitems, hstart⟩ := exists_regionItems_eq_cons hnone
  rw [items] at hfound
  cases rest with
  | nil =>
      rw [itemsFrom_of_region (hregion 0), hitems] at hfound
      cases hfound
      exact ⟨item, more, rfl, hstart⟩
  | cons c markup =>
      obtain rfl := opening_of_readRegion (hregion 0)
      rw [itemsFrom_eq_bind (hregion 0), hitems] at hfound
      generalize readMarkup (0 + Text.bytes ('@' :: u)) markup = read at hfound
      cases read with
      | error e => cases hfound
      | ok read =>
          simp only [Except.bind] at hfound
          generalize itemsFrom _ read.2 = after at hfound
          cases after with
          | error e => cases hfound
          | ok after =>
              cases hfound
              exact ⟨item, _, rfl, hstart⟩

theorem readsBody_of_balanced (hkeyword : keyword ∈ blockKeywords)
    (hfree : ¬ ['\x7b', '\x7b'] <:+: condition)
    (hbody : ∀ c ∈ body, c ≠ '<' ∧ c ≠ '\x7b' ∧ c ≠ '\x7d' ∧ c ≠ '@') (hne : Text.trim body ≠ [])
    (hbalanced : Balanced condition) (hmarkup : hasMarkup condition = false) :
    ReadsBody keyword condition body := by
  have hregion : ReadsRegion (block keyword condition body) (block keyword condition body) [] := by
    refine readsRegion_of_hasMarkup_eq_false ?_ ?_
    · rw [hasMarkup_block hkeyword fun hmem => (hbody _ hmem).1 rfl, hmarkup]
    · exact not_pair_infix_block hkeyword hfree fun hmem => (hbody _ hmem).2.1 rfl
  have hheader : afterControlFlow? (block keyword condition body).tail
      = some (body ++ ['\x7d']) := by
    rw [block_eq]
    exact afterControlFlow?_of_balanced hkeyword hbalanced _
  have hplain : Text.occursIn ['\x7b', '\x7b'] (Text.trim body) = false := by
    rw [← Bool.not_eq_true, Text.occursIn_iff_infix]
    refine fun hpair => Text.not_pair_infix_of_not_mem ?_ ((trim_pair_infix_iff rfl body).mp hpair)
    exact fun hmem => (hbody _ hmem).2.1 rfl
  rw [ReadsBody, items, itemsFrom_of_region (hregion 0), regionItems_block hheader hbody hne]
  simp [Segment.item?, hne, hplain]

/-- A header whose end is hidden is a text at the very beginning, not before the text in the block. -/
theorem not_readsBody_of_none {u rest : Text}
    (hregion : ReadsRegion (block keyword condition body) ('@' :: u) rest)
    (hnone : afterControlFlow? u = none) : ¬ ReadsBody keyword condition body := by
  intro h
  rw [ReadsBody, block, blockHeader, List.cons_append] at h
  obtain ⟨item, more, hitems, hstart⟩ := exists_items_eq_cons hregion hnone h
  cases hitems
  have hpos := Char.utf8Size_pos '@'
  simp only [Item.span, Text.bytes_cons] at hstart
  omega

/-- Text that is cut off before a `<` begins with all that stands before the first one. -/
theorem exists_eq_append_of_cut {s t region markup : Text} (hs : '<' ∉ s)
    (h : s ++ t = region ++ '<' :: markup) : ∃ p, region = s ++ p ∧ t = p ++ '<' :: markup := by
  rcases List.append_eq_append_iff.mp h with ⟨p, hregion, ht⟩ | ⟨p, hregion, hmarkup⟩
  · exact ⟨p, hregion, ht⟩
  · cases p with
    | nil => exact ⟨[], by simpa using hregion.symm, hmarkup.symm⟩
    | cons c p =>
        rw [List.cons_append, List.cons.injEq] at hmarkup
        exact absurd (by rw [hregion, ← hmarkup.1]; simp) hs

theorem not_mem_of_cut {s t p markup : Text} {c : Char} (hs : c ∉ s) (ht : '<' ∉ t)
    (h : s ++ t = p ++ '<' :: markup) : c ∉ p := by
  rcases List.append_eq_append_iff.mp h with ⟨w, _, hmarkup⟩ | ⟨w, rfl, _⟩
  · exact absurd (hmarkup ▸ by simp) ht
  · exact fun hmem => hs (List.mem_append_left w hmem)

theorem not_readsBody_of_hasMarkup (hkeyword : keyword ∈ blockKeywords)
    (hbrace : '\x7b' ∉ condition)
    (hbody : ∀ c ∈ body, c ≠ '<' ∧ c ≠ '\x7b' ∧ c ≠ '\x7d' ∧ c ≠ '@')
    (hmarkup : hasMarkup condition = true) : ¬ ReadsBody keyword condition body := by
  have hbodyMarkup : '<' ∉ body := fun hmem => (hbody _ hmem).1 rfl
  have hbodyBrace : '\x7b' ∉ body := fun hmem => (hbody _ hmem).2.1 rfl
  have hpair := not_pair_infix_block hkeyword (Text.not_pair_infix_of_not_mem hbrace) hbodyBrace
  rw [← hasMarkup_block hkeyword hbodyMarkup] at hmarkup
  obtain ⟨region, markup, hblock, hregion⟩ := exists_readsRegion_of_hasMarkup hmarkup hpair
  have hwords : ∀ w ∈ blockKeywords, '<' ∉ w := by decide
  have hstart : '<' ∉ '@' :: (keyword ++ " (".toList) := by simpa using hwords keyword hkeyword
  rw [block_eq, ← List.append_assoc keyword, ← List.cons_append] at hblock
  obtain ⟨p, rfl, hp⟩ := exists_eq_append_of_cut hstart hblock
  have hfree : '\x7b' ∉ p := by
    refine not_mem_of_cut (s := condition ++ ") ".toList) (t := '\x7b' :: (body ++ ['\x7d'])) ?_ ?_
      (by simpa using hp)
    · simpa using hbrace
    · simpa using hbodyMarkup
  have hnone : afterControlFlow? (keyword ++ (" (".toList ++ p)) = none := by
    rw [Option.eq_none_iff_forall_ne_some]
    intro rest hsome
    rw [afterControlFlow?_condition_iff hkeyword] at hsome
    have hsuffix : '\x7b' :: rest <:+ p := by
      rw [← hsome]
      exact (List.dropWhile_suffix _).trans (afterParens_suffix 0 p)
    exact hfree (hsuffix.subset List.mem_cons_self)
  rw [List.cons_append, List.append_assoc] at hregion
  exact not_readsBody_of_none hregion hnone

theorem balanced_of_readsBody (hkeyword : keyword ∈ blockKeywords) (hbrace : '\x7b' ∉ condition)
    (hbody : ∀ c ∈ body, c ≠ '<' ∧ c ≠ '\x7b' ∧ c ≠ '\x7d' ∧ c ≠ '@')
    (hmarkup : hasMarkup condition = false) (hread : ReadsBody keyword condition body) :
    Balanced condition := by
  have hbodyBrace : '\x7b' ∉ body := fun hmem => (hbody _ hmem).2.1 rfl
  have hregion : ReadsRegion (block keyword condition body) (block keyword condition body) [] := by
    refine readsRegion_of_hasMarkup_eq_false ?_ ?_
    · rw [hasMarkup_block hkeyword fun hmem => (hbody _ hmem).1 rfl, hmarkup]
    · exact not_pair_infix_block hkeyword (Text.not_pair_infix_of_not_mem hbrace) hbodyBrace
  cases hheader : afterControlFlow? (block keyword condition body).tail with
  | none => exact absurd hread (not_readsBody_of_none hregion hheader)
  | some rest =>
      rw [block_eq] at hheader
      exact balanced_of_afterControlFlow? hkeyword hbrace (by simpa using hbodyBrace) hheader

/-- The header of a block is read as a header, and the text in the block as the only item, if the
parentheses of its condition match with those in string literals counted and the condition has no
`<` that opens markup. With any other condition that has no brace in it, it is not so. -/
theorem block_read_by_condition (hkeyword : keyword ∈ blockKeywords)
    (hfree : ¬ ['\x7b', '\x7b'] <:+: condition)
    (hbody : ∀ c ∈ body, c ≠ '<' ∧ c ≠ '\x7b' ∧ c ≠ '\x7d' ∧ c ≠ '@') (hne : Text.trim body ≠ []) :
    (Balanced condition → hasMarkup condition = false → ReadsBody keyword condition body) ∧
      ('\x7b' ∉ condition → ReadsBody keyword condition body →
        Balanced condition ∧ hasMarkup condition = false) := by
  refine ⟨readsBody_of_balanced hkeyword hfree hbody hne, fun hbrace hread => ?_⟩
  have hmarkup : hasMarkup condition = false := by
    rw [← Bool.not_eq_true]
    exact fun htrue => not_readsBody_of_hasMarkup hkeyword hbrace hbody htrue hread
  exact ⟨balanced_of_readsBody hkeyword hbrace hbody hmarkup hread, hmarkup⟩

end Block

/-- A condition with a comparison and a literal whose parentheses match. -/
theorem block_read_of_comparison :
    ReadsBody "if".toList "a < b && f('()')".toList " \n Save ".toList := by
  have hheader : afterControlFlow? ("if".toList ++ (" (".toList ++ ("a < b && f('()')".toList
      ++ (") \x7b".toList ++ [])))) = some [] := by decide +kernel
  have hbalanced : Balanced "a < b && f('()')".toList :=
    balanced_of_afterControlFlow? (by decide) (by decide) (by decide) hheader
  exact (block_read_by_condition (by decide) (Text.not_pair_infix_of_not_mem (by decide))
    (by simp) (by decide +kernel)).1 hbalanced (by decide)

/-- Neither a comparison without blanks nor a parenthesis in a literal is seen for what it is. -/
theorem not_readsBody_of_hidden_end :
    (BalancedCode "a<b".toList ∧ ¬ ReadsBody "if".toList "a<b".toList "Save".toList) ∧
      BalancedCode "')'".toList ∧ ¬ ReadsBody "if".toList "')'".toList "Save".toList := by
  have hplain {c : Char} {t : Text} (hc : c ≠ '(' ∧ c ≠ ')' ∧ c ≠ '\'' ∧ c ≠ '"')
      (ht : BalancedCode t) : BalancedCode (c :: t) := .char hc.1 hc.2.1 hc.2.2.1 hc.2.2.2 ht
  have hbody : ∀ c ∈ "Save".toList, c ≠ '<' ∧ c ≠ '\x7b' ∧ c ≠ '\x7d' ∧ c ≠ '@' := by simp
  refine ⟨⟨?_, ?_⟩, ?_, ?_⟩
  · exact hplain (by decide) (hplain (by decide) (hplain (by decide) .nil))
  · exact not_readsBody_of_hasMarkup (by decide) (by decide) hbody rfl
  · have hliteral : ∀ c ∈ [')'], c ≠ '\'' ∧ c ≠ '\\' := by simp
    exact .string (.inl rfl) hliteral .nil
  · intro hread
    have hbalanced := balanced_of_readsBody (by decide) (by decide) hbody rfl hread
    cases hbalanced with
    | char _ _ ht =>
        cases ht with
        | char _ hclose => exact hclose rfl

end KeyLint.Template
