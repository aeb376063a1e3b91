import KeyLint.Proofs.Text
import KeyLint.Template.Entity

/-!
# Writing characters as references

A character may be written in a text as it is, by its code point in decimal or hexadecimal digits, or
by its name if it has one; only an ampersand has to be written as a reference. Decoding reads each
character back, whatever follows it, and never looks at what it has decoded before.
-/

namespace KeyLint

/-! ## Digits -/

namespace Text

theorem digitsValue?_append (base acc : Nat) (s t : Text) :
    digitsValue? base acc (s ++ t)
      = (digitsValue? base acc s).bind fun n => digitsValue? base n t := by
  induction s generalizing acc with
  | nil => rfl
  | cons c s ih =>
      rw [List.cons_append, digitsValue?, digitsValue?]
      split
      · split
        · exact ih _
        · rfl
      · rfl

theorem digitValue?_digitChar {d : Nat} (h : d < 16) : digitValue? d.digitChar = some d := by
  have hall : ∀ d < 16, digitValue? (Nat.digitChar d) = some d := by decide
  exact hall d h

theorem digitsValue?_toDigits {base : Nat} (hbase : 1 < base) (hsmall : base ≤ 16) (n : Nat) :
    digitsValue? base 0 (Nat.toDigits base n) = some n := by
  induction n using Nat.strong_induction_on with
  | _ n ih =>
      rw [Nat.toDigits_eq_if hbase]
      split
      · next hlt => simp [digitsValue?, digitValue?_digitChar (show n < 16 by omega), hlt]
      · next hle =>
          have hmod : n % base < base := Nat.mod_lt n (by omega)
          rw [digitsValue?_append, ih (n / base) (Nat.div_lt_self (by omega) hbase)]
          simp [digitsValue?, digitValue?_digitChar (show n % base < 16 by omega), hmod,
            Nat.div_add_mod']

theorem digitValue?_toLower (c : Char) : digitValue? c.toLower = digitValue? c := by
  by_cases h : 'A' ≤ c ∧ c ≤ 'Z'
  · have hall : ∀ n < 91, digitValue? (Char.ofNat n).toLower = digitValue? (Char.ofNat n) := by
      decide
    have hhigh : c.toNat ≤ 90 := h.2
    have hc := hall c.toNat (by omega)
    rwa [Char.ofNat_toNat] at hc
  · have hlower : c.toLower = c := dif_neg h
    rw [hlower]

theorem digitsValue?_map_toLower (base acc : Nat) (t : Text) :
    digitsValue? base acc (t.map Char.toLower) = digitsValue? base acc t := by
  induction t generalizing acc with
  | nil => rfl
  | cons c t ih => simp only [List.map_cons, digitsValue?, digitValue?_toLower, ih]

theorem isSome_digitValue?_of_mem {base acc n : Nat} {t : Text} {c : Char}
    (h : digitsValue? base acc t = some n) (hc : c ∈ t) : (digitValue? c).isSome = true := by
  induction t generalizing acc with
  | nil => cases hc
  | cons d t ih =>
      rw [digitsValue?] at h
      split at h
      · next hd =>
          split at h
          · rcases List.mem_cons.mp hc with rfl | hc
            · simp [hd]
            · exact ih h hc
          · cases h
      · cases h

theorem toNat_le_of_isSome_digitValue? {c : Char} (h : (digitValue? c).isSome = true) :
    c.toNat ≤ 102 := by
  simp only [digitValue?, Bool.and_eq_true, decide_eq_true_eq] at h
  split_ifs at h with hdecimal hsmall hcapital
  · have hhigh : c.toNat ≤ 57 := hdecimal.2
    omega
  · exact hsmall.2
  · have hhigh : c.toNat ≤ 70 := hcapital.2
    omega
  · cases h

theorem bytes_of_digitsValue? {base acc n : Nat} {t : Text} (h : digitsValue? base acc t = some n) :
    bytes t = t.length := by
  have hsize : ∀ c ∈ t, c.utf8Size = 1 := by
    intro c hc
    have hle := toNat_le_of_isSome_digitValue? (isSome_digitValue?_of_mem h hc)
    exact Char.utf8Size_eq_one_iff.mpr (show c.toNat ≤ 127 by omega)
  clear h
  induction t with
  | nil => rfl
  | cons c t ih =>
      obtain ⟨hc, ht⟩ := List.forall_mem_cons.mp hsize
      rw [bytes_cons, hc, ih ht, List.length_cons, Nat.add_comm]

theorem number?_of_digitsValue? {base n : Nat} {t : Text} (hne : t ≠ [])
    (h : digitsValue? base 0 t = some n) : number? base t = some n := by
  obtain ⟨c, t, rfl⟩ := List.exists_cons_of_ne_nil hne
  have hdigit := isSome_digitValue?_of_mem h List.mem_cons_self
  have hc : c ≠ '+' := by
    rintro rfl
    exact absurd hdigit (by decide)
  rw [number?.eq_4 base (c :: t) (by simp) (by simp [hc]) (by simp [hc])]
  exact h

theorem charOfNat?_toNat (c : Char) : charOfNat? c.toNat = some c := by
  have hvalid : c.toNat.isValidChar := c.valid
  rw [charOfNat?, if_pos hvalid, Char.ofNat_toNat]

end Text

namespace Template

/-! ## References -/

/-- The ways to write a character in a text. Hexadecimal digits may have any case. -/
inductive Spells : Char → Text → Prop
  | verbatim {c : Char} (hc : c ≠ '&') : Spells c [c]
  | decimal (c : Char) : Spells c ('&' :: ('#' :: Nat.toDigits 10 c.toNat ++ [';']))
  | hexadecimal {c x : Char} {digits : Text} (hx : x = 'x' ∨ x = 'X')
      (hdigits : digits.map Char.toLower = Nat.toDigits 16 c.toNat) :
      Spells c ('&' :: ('#' :: x :: digits ++ [';']))
  | named {c : Char} {name : Text} (hname : (name, c) ∈ namedCharacters) :
      Spells c ('&' :: (name ++ [';']))

/-- What stands between `&` and `;` in a reference to a character. -/
structure IsReference (name : Text) (c : Char) : Prop where
  noEnd : ';' ∉ name
  short : 1 + Text.bytes name ≤ maxReferenceBytes
  refers : referenced? name = some c

theorem reference?_append {name : Text} {c : Char} (h : IsReference name c) (rest : Text) :
    reference? (name ++ ';' :: rest) = some (c, rest) := by
  rw [reference?, Text.takeWhile_ne_append h.noEnd, Text.dropWhile_ne_append h.noEnd]
  simp only [h.refers, h.short, if_true, Option.map_some]

theorem of_reference?_eq_some {t rest : Text} {c : Char} (h : reference? t = some (c, rest)) :
    ∃ name, t = name ++ ';' :: rest ∧ IsReference name c := by
  by_cases hmem : ';' ∈ t
  · obtain ⟨name, after, rfl, hname⟩ := List.eq_append_cons_of_mem hmem
    rw [reference?, Text.takeWhile_ne_append hname, Text.dropWhile_ne_append hname] at h
    simp only at h
    split at h
    · next hshort =>
        obtain ⟨d, hd, heq⟩ := Option.map_eq_some_iff.mp h
        cases heq
        exact ⟨name, rfl, hname, hshort, hd⟩
    · cases h
  · rw [reference?, Text.dropWhile_ne_of_not_mem hmem] at h
    cases h

theorem isReference_named {c : Char} {name : Text} (h : (name, c) ∈ namedCharacters) :
    IsReference name c := by
  have hall : ∀ entry ∈ namedCharacters, ';' ∉ entry.1 ∧
      1 + Text.bytes entry.1 ≤ maxReferenceBytes ∧ referenced? entry.1 = some entry.2 := by
    decide
  obtain ⟨hnoEnd, hshort, hrefers⟩ := hall _ h
  exact ⟨hnoEnd, hshort, hrefers⟩

theorem toNat_lt (c : Char) : c.toNat < 0x110000 := by
  rcases c.valid with h | h
  · exact Nat.lt_of_lt_of_le h (by decide)
  · exact h.2

theorem isReference_of_digits {base : Nat} (mark digits : Text) {c : Char} (hmark : ';' ∉ mark)
    (hne : digits ≠ []) (hvalue : Text.digitsValue? base 0 digits = some c.toNat)
    (hshort : 1 + (Text.bytes mark + digits.length) ≤ maxReferenceBytes)
    (hbase : referenced? (mark ++ digits) = (Text.number? base digits).bind Text.charOfNat?) :
    IsReference (mark ++ digits) c where
  noEnd := by
    intro hmem
    rcases List.mem_append.mp hmem with hmem | hmem
    · exact hmark hmem
    · exact absurd (Text.isSome_digitValue?_of_mem hvalue hmem) (by decide)
  short := by rwa [Text.bytes_append, Text.bytes_of_digitsValue? hvalue]
  refers := by
    rw [hbase, Text.number?_of_digitsValue? hne hvalue, Option.bind_some, Text.charOfNat?_toNat]

theorem referenced?_decimal {d : Char} (hd : (Text.digitValue? d).isSome = true) (ds : Text) :
    referenced? ('#' :: d :: ds) = (Text.number? 10 (d :: ds)).bind Text.charOfNat? := by
  have hsmall : d ≠ 'x' := by
    rintro rfl
    exact absurd hd (by decide)
  have hcapital : d ≠ 'X' := by
    rintro rfl
    exact absurd hd (by decide)
  simp [referenced?, hsmall, hcapital]

theorem isReference_decimal (c : Char) : IsReference ('#' :: Nat.toDigits 10 c.toNat) c := by
  have hvalue := Text.digitsValue?_toDigits (show 1 < 10 by decide) (by decide) c.toNat
  have hne : Nat.toDigits 10 c.toNat ≠ [] := Nat.toDigits_ne_nil
  have hlength : (Nat.toDigits 10 c.toNat).length ≤ 7 :=
    (Nat.length_toDigits_le_iff (by decide) (by decide)).mpr ((toNat_lt c).trans (by decide))
  refine isReference_of_digits ['#'] (Nat.toDigits 10 c.toNat) (by decide) hne hvalue ?_ ?_
  · exact Nat.add_le_add_left (Nat.add_le_add_left hlength 1) 1 |>.trans (by decide)
  · obtain ⟨d, ds, hds⟩ := List.exists_cons_of_ne_nil hne
    have hdigit := Text.isSome_digitValue?_of_mem hvalue (hds ▸ List.mem_cons_self)
    rw [hds]
    exact referenced?_decimal hdigit ds

theorem isReference_hexadecimal {c x : Char} {digits : Text} (hx : x = 'x' ∨ x = 'X')
    (hdigits : digits.map Char.toLower = Nat.toDigits 16 c.toNat) :
    IsReference ('#' :: x :: digits) c := by
  have hvalue : Text.digitsValue? 16 0 digits = some c.toNat := by
    rw [← Text.digitsValue?_map_toLower, hdigits]
    exact Text.digitsValue?_toDigits (by decide) (by decide) c.toNat
  have hne : digits ≠ [] := by
    rintro rfl
    exact Nat.toDigits_ne_nil hdigits.symm
  have hlength : digits.length ≤ 6 := by
    rw [← List.length_map Char.toLower, hdigits]
    exact (Nat.length_toDigits_le_iff (by decide) (by decide)).mpr ((toNat_lt c).trans (by decide))
  have hshort : 1 + (2 + digits.length) ≤ maxReferenceBytes :=
    (Nat.add_le_add_left (Nat.add_le_add_left hlength 2) 1).trans (by decide)
  rcases hx with rfl | rfl
  · exact isReference_of_digits ['#', 'x'] digits (by decide) hne hvalue hshort rfl
  · exact isReference_of_digits ['#', 'X'] digits (by decide) hne hvalue hshort rfl

/-! ## Decoding -/

theorem decodeEntities_cons_of_ne {c : Char} (hc : c ≠ '&') (t : Text) :
    decodeEntities (c :: t) = c :: decodeEntities t := by
  rw [decodeEntities, if_neg hc]

theorem decodeEntities_ampersand (t : Text) :
    decodeEntities ('&' :: t) = match reference? t with
      | some (c, rest) => c :: decodeEntities rest
      | none => '&' :: decodeEntities t := by
  rw [decodeEntities, if_pos rfl]
  split
  · next hread => rw [hread]
  · next hread => rw [hread]

theorem decodeEntities_reference {name : Text} {c : Char} (h : IsReference name c) (t : Text) :
    decodeEntities ('&' :: (name ++ [';']) ++ t) = c :: decodeEntities t := by
  rw [List.cons_append, List.append_assoc, List.singleton_append, decodeEntities_ampersand,
    reference?_append h]

theorem Spells.decodeEntities_append {c : Char} {written : Text} (h : Spells c written) (t : Text) :
    decodeEntities (written ++ t) = c :: decodeEntities t := by
  cases h with
  | verbatim hc => exact decodeEntities_cons_of_ne hc t
  | decimal => exact decodeEntities_reference (isReference_decimal c) t
  | hexadecimal hx hdigits => exact decodeEntities_reference (isReference_hexadecimal hx hdigits) t
  | named hname => exact decodeEntities_reference (isReference_named hname) t

theorem decodeEntities_append_of_spells {s : Text} {written : List Text}
    (h : List.Forall₂ Spells s written) (t : Text) :
    decodeEntities (written.flatten ++ t) = s ++ decodeEntities t := by
  induction h with
  | nil => rfl
  | cons hc _ ih => rw [List.flatten_cons, List.append_assoc, hc.decodeEntities_append, ih]; rfl

/-- A piece of a text that is decoded to a character: a reference to it, or the character. -/
def IsPieceOf (c : Char) (piece : Text) : Prop :=
  piece = [c] ∨ ∃ name, piece = '&' :: (name ++ [';']) ∧ IsReference name c

/-- Each character of a decoded text comes from a piece of the text as it was. -/
theorem exists_pieces (t : Text) :
    ∃ pieces : List Text, pieces.flatten = t ∧
      List.Forall₂ IsPieceOf (decodeEntities t) pieces := by
  fun_induction decodeEntities t with
  | case1 => exact ⟨[], rfl, .nil⟩
  | case2 t d rest hread ih =>
      obtain ⟨pieces, hpieces, hdecoded⟩ := ih
      obtain ⟨name, rfl, hname⟩ := of_reference?_eq_some hread
      exact ⟨('&' :: (name ++ [';'])) :: pieces, by simp [hpieces],
        .cons (.inr ⟨name, rfl, hname⟩) hdecoded⟩
  | case3 t hread ih =>
      obtain ⟨pieces, hpieces, hdecoded⟩ := ih
      exact ⟨['&'] :: pieces, by simp [hpieces], .cons (.inl rfl) hdecoded⟩
  | case4 c t hc ih =>
      obtain ⟨pieces, hpieces, hdecoded⟩ := ih
      exact ⟨[c] :: pieces, by simp [hpieces], .cons (.inl rfl) hdecoded⟩

/-- No ampersand of a text has a semicolon among the ten bytes after it. -/
def HasNoReference (t : Text) : Prop :=
  ∀ before between rest, t = before ++ '&' :: (between ++ ';' :: rest) → 10 ≤ Text.bytes between

theorem HasNoReference.tail {c : Char} {t : Text} (h : HasNoReference (c :: t)) :
    HasNoReference t := by
  intro before between rest ht
  exact h (c :: before) between rest (congrArg _ ht)

theorem decodeEntities_of_hasNoReference {t : Text} (h : HasNoReference t) :
    decodeEntities t = t := by
  fun_induction decodeEntities t with
  | case1 => rfl
  | case2 t d rest hread ih =>
      obtain ⟨name, rfl, hname⟩ := of_reference?_eq_some hread
      have hfar := h [] name rest rfl
      have hshort := hname.short
      rw [maxReferenceBytes] at hshort
      omega
  | case3 t hread ih => rw [ih h.tail]
  | case4 c t hc ih => rw [ih h.tail]

theorem decodeEntities_of_not_mem {t : Text} (h : '&' ∉ t) : decodeEntities t = t :=
  decodeEntities_of_hasNoReference fun before _ _ ht => absurd (ht ▸ by simp) h

/-! ## The law -/

/-- A text whose characters are written in any of the ways to write them is decoded to the
characters, and what follows it is decoded for itself. Every character of a decoded text comes from
a piece of the text alone, and a text without references is left as it is. -/
theorem decoding_undoes_encoding {s : Text} {written : List Text}
    (h : List.Forall₂ Spells s written) :
    decodeEntities written.flatten = s ∧
      (∀ t, decodeEntities (written.flatten ++ t) = s ++ decodeEntities t) ∧
      (∀ t, ∃ pieces : List Text, pieces.flatten = t ∧
        List.Forall₂ IsPieceOf (decodeEntities t) pieces) ∧
      ∀ t, HasNoReference t → decodeEntities t = t := by
  have happend := decodeEntities_append_of_spells h
  refine ⟨?_, happend, exists_pieces, fun _ => decodeEntities_of_hasNoReference⟩
  calc decodeEntities written.flatten
      = decodeEntities (written.flatten ++ []) := by rw [List.append_nil]
    _ = s ++ decodeEntities [] := happend []
    _ = s := by rw [decodeEntities, List.append_nil]

/-- The decoded ampersand begins no reference, although `lt;` follows it, and the last code point is
short enough. -/
theorem decoding_undoes_encoding_of_ampersand :
    List.Forall₂ Spells ("&lt;é".toList ++ [Char.ofNat 0x10ffff])
        ["&amp;".toList, ['l'], ['t'], [';'], "&#233;".toList, "&#X10FfFF;".toList] ∧
      HasNoReference "A & B".toList ∧
      decodeEntities "&amp;lt;&#233;&#X10FfFF;".toList
        = "&lt;é".toList ++ [Char.ofNat 0x10ffff] ∧
      decodeEntities "&amp;lt;&#233;&#X10FfFF;A & B".toList
        = "&lt;é".toList ++ [Char.ofNat 0x10ffff] ++ "A & B".toList ∧
      decodeEntities "A & B".toList = "A & B".toList := by
  have hname : ("amp".toList, '&') ∈ namedCharacters := by decide
  have hdigits : "10FfFF".toList.map Char.toLower = Nat.toDigits 16 (Char.ofNat 0x10ffff).toNat := by
    decide
  have h : List.Forall₂ Spells ("&lt;é".toList ++ [Char.ofNat 0x10ffff])
      ["&amp;".toList, ['l'], ['t'], [';'], "&#233;".toList, "&#X10FfFF;".toList] :=
    .cons (.named hname) (.cons (.verbatim (by decide)) (.cons (.verbatim (by decide))
      (.cons (.verbatim (by decide)) (.cons (.decimal 'é')
        (.cons (.hexadecimal (.inr rfl) hdigits) .nil)))))
  have hfree : HasNoReference "A & B".toList := by
    intro before between rest ht
    have hmem : ';' ∈ "A & B".toList := ht ▸ by simp
    exact absurd hmem (by decide)
  obtain ⟨hdecoded, happend, _, hkept⟩ := decoding_undoes_encoding h
  have hrest := happend "A & B".toList
  rw [hkept _ hfree] at hrest
  exact ⟨h, hfree, hdecoded, hrest, hkept _ hfree⟩

end Template

end KeyLint
