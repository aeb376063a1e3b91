import Mathlib.Data.List.Basic
import KeyLint.Expression.Quoted
import KeyLint.Proofs.Text

/-!
# The shape of keys, and where they are quoted

A key has a first segment, a last segment, and word characters, dots and hyphens between them. The
quoted keys of a text can be looked for in parts of it, as long as no part ends within a token that
has a quote in it.
-/

namespace KeyLint.Expression

/-! ## The shape of keys -/

/-- A character of the first or the last segment of a key. -/
def isOuterKeyChar (c : Char) : Bool :=
  !Text.isBlank c && !isQuote c && c ≠ '.'

/-- A text has a first segment, word characters, dots and hyphens, a dot, and a last segment. -/
def HasKeyShape (t : Text) : Prop :=
  ∃ first middle last, t = first ++ (middle ++ '.' :: last) ∧ first ≠ [] ∧ last ≠ [] ∧
    (∀ c ∈ first, isOuterKeyChar c = true) ∧ (∀ c ∈ last, isOuterKeyChar c = true) ∧
    ∀ c ∈ middle, isInnerKeyChar c = true ∨ c = '.'

theorem isKeyToken_iff_of_splitOn {t first : Text} {segments : List Text}
    (h : Text.splitOn '.' t = first :: segments) (hne : segments ≠ []) :
    isKeyToken t = true ↔ first ≠ [] ∧ segments.getLast?.getD [] ≠ [] ∧
      ∀ segment ∈ segments.dropLast, ∀ c ∈ segment, isInnerKeyChar c = true := by
  obtain ⟨second, more, rfl⟩ := List.exists_cons_of_ne_nil hne
  simp [isKeyToken, h, and_assoc]

theorem isOuterKeyChar_iff {c : Char} :
    isOuterKeyChar c = true ↔ Text.isBlank c = false ∧ isQuote c = false ∧ c ≠ '.' := by
  simp [isOuterKeyChar, and_assoc]

theorem isOuterKeyChar_ne_dot {c : Char} (h : isOuterKeyChar c = true) : decide (c = '.') = false :=
  decide_eq_false (isOuterKeyChar_iff.mp h).2.2

theorem not_isBlank_of_isInnerKeyChar {c : Char} (h : isInnerKeyChar c = true) :
    Text.isBlank c = false := by
  rw [Bool.eq_false_iff]
  intro hblank
  have hinner : isInnerKeyChar c = false := Text.eq_false_of_isBlank (by decide +kernel) hblank
  rw [hinner] at h
  cases h

theorem not_isQuote_of_isInnerKeyChar {c : Char} (h : isInnerKeyChar c = true) :
    isQuote c = false := by
  rw [Bool.eq_false_iff]
  intro hquote
  simp only [isQuote, Bool.or_eq_true, decide_eq_true_eq] at hquote
  rcases hquote with rfl | rfl
  · exact absurd h (by decide +kernel)
  · exact absurd h (by decide +kernel)

theorem isKeyToken_of_hasKeyShape {t : Text} (h : HasKeyShape t) : isKeyToken t = true := by
  obtain ⟨first, middle, last, rfl, hfirst, hlast, hfirstChars, hlastChars, hmiddle⟩ := h
  obtain ⟨segment, segments, hsplit⟩ :=
    List.exists_cons_of_ne_nil (Text.splitWhere_ne_nil (· = '.') middle)
  have hstart : Text.splitOn '.' (first ++ middle) = (first ++ segment) :: segments :=
    Text.splitWhere_append (fun c hc => isOuterKeyChar_ne_dot (hfirstChars c hc)) hsplit
  have hend : Text.splitOn '.' last = [last] :=
    Text.splitWhere_eq_singleton fun c hc => isOuterKeyChar_ne_dot (hlastChars c hc)
  have hall : Text.splitOn '.' (first ++ (middle ++ '.' :: last))
      = (first ++ segment) :: (segments ++ [last]) := by
    rw [← List.append_assoc, Text.splitOn, Text.splitWhere_append_cons (by simp)]
    exact congrArg₂ (· ++ ·) hstart hend
  refine (isKeyToken_iff_of_splitOn hall (by simp)).mpr ⟨by simp [hfirst], by simpa using hlast, ?_⟩
  rw [List.dropLast_concat]
  intro piece hpiece c hc
  obtain ⟨hmem, hdot⟩ := Text.mem_iff_of_splitWhere.mp
    ⟨piece, hsplit ▸ List.mem_cons_of_mem segment hpiece, hc⟩
  exact (hmiddle c hmem).resolve_right (of_decide_eq_false hdot)

/-- A character that can stand between the quotes of a key. -/
def isTokenChar (c : Char) : Bool :=
  !isQuote c && !Text.isBlank c

theorem isTokenChar_of_hasKeyShape {t : Text} (h : HasKeyShape t) :
    ∀ c ∈ t, isTokenChar c = true := by
  obtain ⟨first, middle, last, rfl, _, _, hfirst, hlast, hmiddle⟩ := h
  have houter : ∀ c, isOuterKeyChar c = true → isTokenChar c = true := by
    intro c hc
    obtain ⟨hblank, hquote, _⟩ := isOuterKeyChar_iff.mp hc
    simp [isTokenChar, hblank, hquote]
  intro c hc
  simp only [List.mem_append, List.mem_cons] at hc
  rcases hc with hc | hc | rfl | hc
  · exact houter c (hfirst c hc)
  · rcases hmiddle c hc with hinner | rfl
    · simp [isTokenChar, not_isBlank_of_isInnerKeyChar hinner, not_isQuote_of_isInnerKeyChar hinner]
    · rfl
  · rfl
  · exact houter c (hlast c hc)

theorem hasKeyShape_of_isKeyToken {t : Text} (hkey : isKeyToken t = true)
    (hchars : ∀ c ∈ t, isTokenChar c = true) : HasKeyShape t := by
  have houter : ∀ c ∈ t, decide (c = '.') = false → isOuterKeyChar c = true := by
    intro c hc hdot
    have hchar := hchars c hc
    simp only [isTokenChar, Bool.and_eq_true, Bool.not_eq_true'] at hchar
    exact isOuterKeyChar_iff.mpr ⟨hchar.2, hchar.1, of_decide_eq_false hdot⟩
  obtain ⟨first, segments, hsplit⟩ :=
    List.exists_cons_of_ne_nil (Text.splitWhere_ne_nil (· = '.') t)
  have hne : segments ≠ [] := by
    rintro rfl
    simp [isKeyToken, Text.splitOn, hsplit] at hkey
  obtain ⟨hfirst, hlast, hinner⟩ := (isKeyToken_iff_of_splitOn hsplit hne).mp hkey
  obtain ⟨hfirstChars, ⟨hnil, _⟩ | ⟨d, rest, hd, rfl, hrest⟩⟩ := Text.of_splitWhere_eq_cons hsplit
  · exact absurd hnil hne
  obtain ⟨init, last, rfl⟩ := (List.eq_nil_or_concat' segments).resolve_left hne
  obtain rfl := of_decide_eq_true hd
  simp only [List.getLast?_concat, Option.getD_some, List.dropLast_concat] at hlast hinner
  have hstart : ∀ c ∈ first, isOuterKeyChar c = true :=
    fun c hc => houter c (by simp [hc]) (hfirstChars c hc)
  obtain ⟨hlastChars, ⟨_, rfl⟩ | ⟨s, d, hd, rfl, hs⟩⟩ := Text.of_splitWhere_eq_concat hrest
  · refine ⟨first, [], rest, by simp, hfirst, hlast, hstart, ?_, by simp⟩
    exact fun c hc => houter c (by simp [hc]) (hlastChars c hc)
  · obtain rfl := of_decide_eq_true hd
    refine ⟨first, '.' :: s, last, by simp, hfirst, hlast, hstart, ?_, ?_⟩
    · exact fun c hc => houter c (by simp [hc]) (hlastChars c hc)
    · rintro c (_ | ⟨_, hc⟩)
      · exact .inr rfl
      · by_cases hdot : c = '.'
        · exact .inr hdot
        · obtain ⟨segment, hsegment, hmem⟩ :=
            (Text.mem_iff_of_splitWhere (p := (· = '.'))).mpr ⟨hc, decide_eq_false hdot⟩
          exact .inl (hinner segment (hs ▸ hsegment) c hmem)

/-- A text has the shape of a key if it has the form of one and could stand between quotes. -/
theorem hasKeyShape_iff {t : Text} :
    HasKeyShape t ↔ (isKeyToken t && t.all isTokenChar) = true := by
  rw [Bool.and_eq_true, List.all_eq_true]
  constructor
  · exact fun h => ⟨isKeyToken_of_hasKeyShape h, isTokenChar_of_hasKeyShape h⟩
  · exact fun h => hasKeyShape_of_isKeyToken h.1 h.2

instance (t : Text) : Decidable (HasKeyShape t) :=
  decidable_of_iff _ hasKeyShape_iff.symm

theorem not_isQuote_of_isBlank {c : Char} (h : Text.isBlank c = true) : isQuote c = false :=
  Text.eq_false_of_isBlank (by decide +kernel) h

/-! ## Quoted keys -/

theorem keyAfterQuote?_append_cons {content : Text} (hcontent : ∀ c ∈ content, isTokenChar c = true)
    {d : Char} (hd : isTokenChar d = false) (rest : Text) :
    keyAfterQuote? (content ++ d :: rest)
      = if isQuote d && isKeyToken content then some (content, rest) else none := by
  have htake : (content ++ d :: rest).takeWhile isTokenChar = content :=
    Text.takeWhile_append_of_head? hcontent (by simp [hd])
  have hdrop : (content ++ d :: rest).dropWhile isTokenChar = d :: rest :=
    Text.dropWhile_append_of_head? hcontent (by simp [hd])
  simp only [keyAfterQuote?]
  rw [show (fun c => !isQuote c && !Text.isBlank c) = isTokenChar from rfl, htake, hdrop]

/-- The search for a key that ends within a text does not depend on what follows the text. -/
theorem keyAfterQuote?_append {s : Text} (hs : ∃ c ∈ s, isTokenChar c = false) (t : Text) :
    keyAfterQuote? (s ++ t) = (keyAfterQuote? s).map fun found => (found.1, found.2 ++ t) := by
  obtain ⟨content, d, rest, rfl, hcontent, hd⟩ := Text.exists_eq_append_cons hs
  rw [List.append_assoc, List.cons_append, keyAfterQuote?_append_cons hcontent hd,
    keyAfterQuote?_append_cons hcontent hd]
  split <;> rfl

/-- What stands between quotes is a key if it has the shape of one. -/
theorem keyAfterQuote?_content {content : Text} (hcontent : ∀ c ∈ content, isQuote c = false)
    {quote : Char} (hquote : isQuote quote = true) (rest : Text) :
    keyAfterQuote? (content ++ quote :: rest)
      = if HasKeyShape content then some (content, rest) else none := by
  by_cases hall : ∀ c ∈ content, isTokenChar c = true
  · rw [keyAfterQuote?_append_cons hall (by simp [isTokenChar, hquote])]
    have hshape : HasKeyShape content ↔ (isQuote quote && isKeyToken content) = true := by
      rw [hasKeyShape_iff, hquote, List.all_eq_true.mpr hall, Bool.true_and, Bool.and_true]
    simp only [hshape]
  · have hblank : ∃ c ∈ content, isTokenChar c = false := by simpa using hall
    rw [if_neg fun h => hall (isTokenChar_of_hasKeyShape h)]
    obtain ⟨s, d, t, rfl, hs, hd⟩ := Text.exists_eq_append_cons hblank
    rw [List.append_assoc, List.cons_append, keyAfterQuote?_append_cons hs hd]
    simp [hcontent d (by simp)]

theorem keyAfterQuote?_eq_some_iff {t key rest : Text} :
    keyAfterQuote? t = some (key, rest) ↔
      HasKeyShape key ∧ ∃ quote, isQuote quote = true ∧ t = key ++ quote :: rest := by
  constructor
  · intro h
    by_cases hend : ∃ c ∈ t, isTokenChar c = false
    · obtain ⟨content, d, tail, rfl, hcontent, hd⟩ := Text.exists_eq_append_cons hend
      rw [keyAfterQuote?_append_cons hcontent hd] at h
      split at h
      · next hkey =>
          cases h
          obtain ⟨hquote, htoken⟩ := Bool.and_eq_true_iff.mp hkey
          exact ⟨hasKeyShape_of_isKeyToken htoken hcontent, d, hquote, rfl⟩
      · cases h
    · have hall : t.dropWhile isTokenChar = [] := by simpa using hend
      simp only [keyAfterQuote?] at h
      rw [show (fun c => !isQuote c && !Text.isBlank c) = isTokenChar from rfl, hall] at h
      cases h
  · rintro ⟨hshape, quote, hquote, rfl⟩
    have hfree : ∀ c ∈ key, isQuote c = false := by
      intro c hc
      have hchar := isTokenChar_of_hasKeyShape hshape c hc
      simp only [isTokenChar, Bool.and_eq_true, Bool.not_eq_true'] at hchar
      exact hchar.1
    rw [keyAfterQuote?_content hfree hquote, if_pos hshape]

theorem quotedKeys_of_key {c : Char} {cs key rest : Text} (place : Nat) (hc : isQuote c = true)
    (h : keyAfterQuote? cs = some (key, rest)) :
    quotedKeys place (c :: cs)
      = ⟨place, key⟩ :: quotedKeys (place + (1 + cs.length - rest.length)) rest := by
  rw [quotedKeys, if_pos hc]
  split
  · next hfound =>
      rw [h] at hfound
      cases hfound
      rfl
  · next hnone =>
      rw [h] at hnone
      cases hnone

theorem quotedKeys_of_no_key {c : Char} {cs : Text} (place : Nat)
    (h : isQuote c = true → keyAfterQuote? cs = none) :
    quotedKeys place (c :: cs) = quotedKeys (place + 1) cs := by
  rw [quotedKeys]
  split
  · next hc =>
      split
      · next hfound =>
          rw [h hc] at hfound
          cases hfound
      · rfl
  · rfl

theorem quotedKeys_append_of_no_quote {s : Text} (hs : ∀ c ∈ s, isQuote c = false) (place : Nat)
    (t : Text) : quotedKeys place (s ++ t) = quotedKeys (place + s.length) t := by
  induction s generalizing place with
  | nil => rfl
  | cons c s ih =>
      have hc := hs c List.mem_cons_self
      rw [List.cons_append, quotedKeys_of_no_key place (by simp [hc]),
        ih fun x hx => hs x (List.mem_cons_of_mem c hx), List.length_cons, Nat.add_assoc,
        Nat.add_comm 1]

theorem place_of_mem_quotedKeys {place : Nat} {t : Text} :
    ∀ k ∈ quotedKeys place t, place ≤ k.place ∧ k.place < place + t.length := by
  fun_induction quotedKeys place t with
  | case1 => simp
  | case2 place c cs hc key rest hkey ih =>
      have hlen := length_lt_of_keyAfterQuote?_eq_some hkey
      simp only [List.mem_cons, List.length_cons]
      rintro k (rfl | hk)
      · constructor <;> dsimp only <;> omega
      · have hplace := ih k hk
        omega
  | case3 place c cs hc hnone ih =>
      intro k hk
      have hplace := ih k hk
      rw [List.length_cons]
      omega
  | case4 place c cs hc ih =>
      intro k hk
      have hplace := ih k hk
      rw [List.length_cons]
      omega

/-- The place of the last quote. -/
def QuotedKey.stop (k : QuotedKey) : Nat :=
  k.place + k.key.length + 1

theorem QuotedKey.place_lt_stop (k : QuotedKey) : k.place < k.stop :=
  Nat.lt_succ_of_le (Nat.le_add_right _ _)

theorem pairwise_stop_quotedKeys (place : Nat) (t : Text) :
    (quotedKeys place t).Pairwise fun k l => k.stop < l.place := by
  fun_induction quotedKeys place t with
  | case1 => exact .nil
  | case2 place c cs hc key rest hkey ih =>
      obtain ⟨_, quote, _, rfl⟩ := keyAfterQuote?_eq_some_iff.mp hkey
      refine List.pairwise_cons.mpr ⟨fun k hk => ?_, ih⟩
      have hplace := place_of_mem_quotedKeys k hk
      simp only [QuotedKey.stop, List.length_append, List.length_cons] at hplace ⊢
      omega
  | case3 place c cs hc hnone ih => exact ih
  | case4 place c cs hc ih => exact ih

theorem pairwise_quotedKeys (place : Nat) (t : Text) :
    (quotedKeys place t).Pairwise fun k l => k.place < l.place := by
  exact (pairwise_stop_quotedKeys place t).imp fun {k _} hlt => k.place_lt_stop.trans hlt

/-! ## Places between tokens -/

/-- Every quote of a text has a blank after it, so that no quoted key goes on after the text. -/
def Settled : Text → Prop
  | [] => True
  | c :: t => (isQuote c = true → ∃ b ∈ t, Text.isBlank b = true) ∧ Settled t

namespace Settled

theorem of_append {s t : Text} (h : Settled (s ++ t)) : Settled t := by
  induction s with
  | nil => exact h
  | cons c s ih => exact ih h.2

theorem append {s t : Text} (hs : Settled s) (ht : ∀ c ∈ t, isQuote c = false) :
    Settled (s ++ t) := by
  induction s with
  | nil =>
      clear hs
      induction t with
      | nil => trivial
      | cons c t ih =>
          refine ⟨fun hc => ?_, ih fun x hx => ht x (List.mem_cons_of_mem c hx)⟩
          rw [ht c List.mem_cons_self] at hc
          cases hc
  | cons c s ih =>
      refine ⟨fun hc => ?_, ih hs.2⟩
      obtain ⟨b, hb, hblank⟩ := hs.1 hc
      exact ⟨b, List.mem_append_left t hb, hblank⟩

theorem append_blank (s : Text) {b : Char} (hb : Text.isBlank b = true) : Settled (s ++ [b]) := by
  induction s with
  | nil => exact ⟨fun hquote => absurd hquote (by simp [not_isQuote_of_isBlank hb]), trivial⟩
  | cons c s ih => exact ⟨fun _ => ⟨b, by simp, hb⟩, ih⟩

theorem exists_not_isTokenChar {c : Char} {t : Text} (h : Settled (c :: t))
    (hc : isQuote c = true) : ∃ b ∈ t, isTokenChar b = false := by
  obtain ⟨b, hb, hblank⟩ := h.1 hc
  exact ⟨b, hb, by simp [isTokenChar, hblank]⟩

end Settled

theorem suffix_of_keyAfterQuote? {t key rest : Text} (h : keyAfterQuote? t = some (key, rest)) :
    rest <:+ t := by
  obtain ⟨_, quote, _, rfl⟩ := keyAfterQuote?_eq_some_iff.mp h
  exact (List.suffix_cons quote rest).trans (List.suffix_append key _)

/-- The quoted keys of a text are those of its two parts if the first part is settled. -/
theorem quotedKeys_append {s : Text} (hs : Settled s) (place : Nat) (t : Text) :
    quotedKeys place (s ++ t) = quotedKeys place s ++ quotedKeys (place + s.length) t := by
  fun_induction quotedKeys place s with
  | case1 => rfl
  | case2 place c cs hc key rest hkey ih =>
      have hlater := keyAfterQuote?_append (hs.exists_not_isTokenChar hc) t
      rw [hkey, Option.map_some] at hlater
      obtain ⟨before, rfl⟩ := suffix_of_keyAfterQuote? hkey
      have hwidth : 1 + (before ++ rest ++ t).length - (rest ++ t).length
          = 1 + (before ++ rest).length - rest.length := by
        simp only [List.length_append]
        omega
      have hend : place + (1 + (before ++ rest).length - rest.length) + rest.length
          = place + (c :: (before ++ rest)).length := by
        simp only [List.length_cons, List.length_append]
        omega
      rw [List.cons_append, quotedKeys_of_key place hc hlater, hwidth, ih hs.2.of_append, hend]
      rfl
  | case3 place c cs hc hnone ih =>
      have hlater := keyAfterQuote?_append (hs.exists_not_isTokenChar hc) t
      rw [hnone, Option.map_none] at hlater
      rw [List.cons_append, quotedKeys_of_no_key place (fun _ => hlater), ih hs.2, List.length_cons,
        Nat.add_assoc, Nat.add_comm 1]
  | case4 place c cs hc ih =>
      rw [List.cons_append, quotedKeys_of_no_key place (fun h => absurd h hc), ih hs.2,
        List.length_cons, Nat.add_assoc, Nat.add_comm 1]

end KeyLint.Expression
