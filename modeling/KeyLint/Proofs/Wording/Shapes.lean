import KeyLint.Wording
import KeyLint.Proofs.Text

/-!
# Shapes of texts for machines

What the tests for mail addresses, file formats, technical beginnings and keys accept, said without
them: by positions, by the folded text, and by the pieces that a text is joined from. The technical
beginnings and the keys are those that are left in texts without `_` and `-`.
-/

namespace KeyLint.Wording

/-! ## Mail addresses -/

/-- Positions of an at sign and of a dot in a mail address: something stands before the at sign,
between the two, and after the dot. -/
def HasAddressForm (run : Text) : Prop :=
  ∃ i j, 1 ≤ i ∧ run[i]? = some '@' ∧ i + 2 ≤ j ∧ run[j]? = some '.' ∧ j + 1 < run.length

theorem isAddress_cons {x : Char} {s : Text} (hs : '@' ∉ s) (rest : Text) :
    isAddress (x :: (s ++ '@' :: rest)) = rest.tail.dropLast.contains '.' := by
  rw [isAddress, List.drop_one, List.tail_cons, Text.dropWhile_ne_append hs]
  cases rest with
  | nil => rfl
  | cons c rest => rfl

theorem hasAddressForm_cons_iff {x : Char} {s : Text} (hs : '@' ∉ s) (rest : Text) :
    HasAddressForm (x :: (s ++ '@' :: rest)) ↔ '.' ∈ rest.tail.dropLast := by
  have hdomain (k : Nat) : (x :: (s ++ '@' :: rest))[s.length + 3 + k]? = rest.tail[k]? := by
    rw [show s.length + 3 + k = s.length + (k + 1 + 1) + 1 by omega, List.getElem?_cons_succ,
      List.getElem?_append_right (by omega), Nat.add_sub_cancel_left, List.getElem?_cons_succ,
      List.getElem?_tail]
  rw [List.mem_iff_getElem?]
  constructor
  · rintro ⟨i, j, hi, hat, hij, hdot, hj⟩
    -- A later at sign asks for a later dot, so that the first one serves as well.
    have hfirst : s.length + 1 ≤ i := by
      obtain ⟨n, rfl⟩ := Nat.exists_eq_add_of_le' hi
      by_contra hlt
      rw [List.getElem?_cons_succ, List.getElem?_append_left (by omega)] at hat
      exact hs (List.mem_of_getElem? hat)
    obtain ⟨k, rfl⟩ := Nat.exists_eq_add_of_le (show s.length + 3 ≤ j by omega)
    refine ⟨k, ?_⟩
    rw [List.getElem?_dropLast, if_pos, ← hdomain, hdot]
    simp only [List.length_cons, List.length_append, List.length_tail] at hj ⊢
    omega
  · rintro ⟨k, hk⟩
    rw [List.getElem?_dropLast] at hk
    split at hk
    · next hlt =>
        refine ⟨s.length + 1, s.length + 3 + k, by omega, by simp, by omega, ?_, ?_⟩
        · rw [hdomain, hk]
        · simp only [List.length_cons, List.length_append, List.length_tail] at hlt ⊢
          omega
    · cases hk

theorem isAddress_iff {run : Text} : isAddress run = true ↔ HasAddressForm run := by
  cases run with
  | nil => simp [isAddress, HasAddressForm]
  | cons x t =>
      by_cases hat : '@' ∈ t
      · obtain ⟨s, rest, rfl, hs⟩ := List.eq_append_cons_of_mem hat
        rw [isAddress_cons hs, hasAddressForm_cons_iff hs, List.contains_iff_mem]
      · have hno : ¬ HasAddressForm (x :: t) := by
          rintro ⟨i, _, hi, hmem, _⟩
          obtain ⟨n, rfl⟩ := Nat.exists_eq_add_of_le' hi
          exact hat (List.mem_of_getElem? hmem)
        simp only [isAddress, List.drop_one, List.tail_cons, Text.dropWhile_ne_of_not_mem hat,
          hno, Bool.false_eq_true]

theorem hasAddress_iff {t : Text} :
    hasAddress t = true ↔ ∃ run, Text.IsRun Text.isBlank run t ∧ HasAddressForm run := by
  simp [hasAddress, List.any_eq_true, Text.mem_splitWhere_iff, isAddress_iff]

/-! ## File formats -/

theorem reservedWords_iff {t : Text} :
    (reservedWords.any fun word => Text.eqIgnoringAsciiCase word t) = true ↔
      t.map Char.toLower ∈
        ["xlsx".toList, "xlx".toList, "csv".toList, "pdf".toList, "png".toList] := by
  have hsmall : ∀ word ∈ reservedWords, word.map Text.toSmallAscii = word := by decide
  have hmap : t.map Text.toSmallAscii = t.map Char.toLower :=
    List.map_congr_left fun c _ => Text.toSmallAscii_eq_toLower c
  rw [List.any_eq_true]
  constructor
  · rintro ⟨word, hword, heq⟩
    rw [Text.eqIgnoringAsciiCase, hsmall word hword, hmap, decide_eq_true_eq] at heq
    exact heq ▸ hword
  · intro hmem
    refine ⟨_, hmem, ?_⟩
    rw [Text.eqIgnoringAsciiCase, hsmall _ hmem, hmap, decide_eq_true rfl]

/-! ## Technical beginnings -/

/-- The simple case folding of a character, as far as it is an ASCII character: the long s folds to
`s`, the Kelvin sign to `k`, a capital to its small letter. -/
def fold (c : Char) : Char :=
  if c = '\u017f' then 's' else if c = '\u212a' then 'k' else c.toLower

theorem foldsTo_iff {letter c : Char} (h : letter.toNat < 128) :
    Text.foldsTo letter c = true ↔ fold c = letter := by
  have hlong : '\u017f'.toLower ≠ letter := by
    rintro rfl
    exact absurd h (by decide)
  have hkelvin : '\u212a'.toLower ≠ letter := by
    rintro rfl
    exact absurd h (by decide)
  have hne : '\u017f' ≠ '\u212a' := by decide
  rw [Text.foldsTo, Text.toSmallAscii_eq_toLower, fold]
  simp only [Bool.or_eq_true, Bool.and_eq_true, decide_eq_true_eq]
  by_cases hs : c = '\u017f'
  · subst hs
    simp only [hlong, hne, if_true, true_and, false_and, false_or, or_false, eq_comm]
  by_cases hk : c = '\u212a'
  · subst hk
    simp only [hkelvin, hne.symm, if_true, if_false, true_and, false_and, false_or, eq_comm]
  · simp only [hs, hk, if_false, false_and, or_false]

theorem startsFolded_iff {word t : Text} (h : ∀ c ∈ word, c.toNat < 128) :
    startsFolded word t = true ↔ word <+: t.map fold := by
  induction word generalizing t with
  | nil => simp [startsFolded]
  | cons letter word ih =>
      obtain ⟨hletter, hword⟩ := List.forall_mem_cons.mp h
      cases t with
      | nil => simp [startsFolded]
      | cons c t =>
          rw [startsFolded, Bool.and_eq_true, foldsTo_iff hletter, ih hword, List.map_cons,
            List.cons_prefix_cons, eq_comm]

theorem ascii_of_mem_technicalStarts {start : Text} (h : start ∈ technicalStarts) {c : Char}
    (hc : c ∈ start) : c.toNat < 128 := by
  have hall : (technicalStarts.all fun start => start.all fun c => c.toNat < 128) = true := by rfl
  have hstart := List.all_eq_true.mp hall start h
  simpa using List.all_eq_true.mp hstart c hc

theorem eq_of_fold_eq {c d : Char} (h : fold c = d) (hd : Text.isAsciiLetter d = false) :
    c = d := by
  unfold fold at h
  split at h
  · subst h
    exact absurd hd (by decide)
  split at h
  · subst h
    exact absurd hd (by decide)
  · rw [← Text.toSmallAscii_eq_toLower] at h
    exact Text.eq_of_toSmallAscii_eq h hd

theorem mem_of_mem_map_fold {d : Char} {t : Text} (h : d ∈ t.map fold)
    (hd : Text.isAsciiLetter d = false) : d ∈ t := by
  obtain ⟨c, hc, heq⟩ := List.mem_map.mp h
  rwa [← eq_of_fold_eq heq hd]

theorem isPrefix_map_fold_iff {d : Char} {t : Text} (hfold : fold d = d)
    (hd : Text.isAsciiLetter d = false) : [d] <+: t.map fold ↔ [d] <+: t := by
  cases t with
  | nil => rfl
  | cons c t =>
      simp only [List.map_cons, List.cons_prefix_cons, List.nil_prefix, and_true]
      constructor
      · intro h
        exact (eq_of_fold_eq h.symm hd).symm
      · rintro rfl
        exact hfold.symm

/-- In a text without `_` and `-` only four of the technical beginnings can stand. -/
theorem technicalStarts_iff {t : Text} (hunderscore : '_' ∉ t) (hhyphen : '-' ∉ t) :
    (technicalStarts.any fun start => startsFolded start t) = true ↔
      "/".toList <+: t ∨ "#".toList <+: t ∨
        "http://".toList <+: t.map fold ∨ "https://".toList <+: t.map fold := by
  have hstarts : ∀ start ∈ technicalStarts, '_' ∈ start ∨ '-' ∈ start ∨
      start = "/".toList ∨ start = "#".toList ∨ start = "http://".toList ∨
      start = "https://".toList := by decide
  have hslash : "/".toList <+: t.map fold ↔ "/".toList <+: t :=
    isPrefix_map_fold_iff (by decide) (by decide)
  have hhash : "#".toList <+: t.map fold ↔ "#".toList <+: t :=
    isPrefix_map_fold_iff (by decide) (by decide)
  have hiff : (technicalStarts.any fun start => startsFolded start t) = true ↔
      ∃ start ∈ technicalStarts, start <+: t.map fold := by
    rw [List.any_eq_true]
    refine exists_congr fun start => and_congr_right fun hstart => ?_
    exact startsFolded_iff fun _ => ascii_of_mem_technicalStarts hstart
  rw [hiff, ← hslash, ← hhash]
  constructor
  · rintro ⟨start, hmem, hpre⟩
    rcases hstarts start hmem with hin | hin | rfl | rfl | rfl | rfl
    · exact absurd (mem_of_mem_map_fold (hpre.subset hin) (by decide)) hunderscore
    · exact absurd (mem_of_mem_map_fold (hpre.subset hin) (by decide)) hhyphen
    · exact .inl hpre
    · exact .inr (.inl hpre)
    · exact .inr (.inr (.inl hpre))
    · exact .inr (.inr (.inr hpre))
  · rintro (hpre | hpre | hpre | hpre)
    · exact ⟨_, by decide, hpre⟩
    · exact ⟨_, by decide, hpre⟩
    · exact ⟨_, by decide, hpre⟩
    · exact ⟨_, by decide, hpre⟩

/-! ## Keys -/

/-- Two or more segments of small letters and digits, with single dots between them. -/
def HasKeyForm (t : Text) : Prop :=
  ∃ segments : List Text, 2 ≤ segments.length ∧
    (∀ segment ∈ segments, segment ≠ [] ∧
      ∀ c ∈ segment, ('a' ≤ c ∧ c ≤ 'z') ∨ ('0' ≤ c ∧ c ≤ '9')) ∧
    t = ['.'].intercalate segments

theorem isKeyChar_iff {c : Char} :
    isKeyChar c = true ↔ ('a' ≤ c ∧ c ≤ 'z') ∨ ('0' ≤ c ∧ c ≤ '9') := by
  simp [isKeyChar, Text.isAsciiDigit]

theorem isKeyShaped_iff_splitOn {t : Text} (h : '_' ∉ t) :
    isKeyShaped t = true ↔
      2 ≤ (List.splitOn '.' t).length ∧ ∀ segment ∈ List.splitOn '.' t,
        segment ≠ [] ∧ ∀ c ∈ segment, ('a' ≤ c ∧ c ≤ 'z') ∨ ('0' ≤ c ∧ c ≤ '9') := by
  have hsplit : Text.splitWhere (fun c => c = '.' || c = '_') t = List.splitOn '.' t := by
    rw [List.splitOn_eq_splitOnP, ← Text.splitWhere_eq_splitOnP]
    refine Text.splitWhere_congr fun c hc => ?_
    have hne : c ≠ '_' := ne_of_mem_of_not_mem hc h
    simp [hne, beq_eq_decide]
  simp [isKeyShaped, hsplit, isKeyChar_iff]

theorem isKeyShaped_iff {t : Text} (h : '_' ∉ t) : isKeyShaped t = true ↔ HasKeyForm t := by
  rw [isKeyShaped_iff_splitOn h]
  constructor
  · rintro ⟨hlength, hall⟩
    exact ⟨_, hlength, hall, (List.intercalate_splitOn '.').symm⟩
  · rintro ⟨segments, hlength, hall, rfl⟩
    have hdot : ∀ segment ∈ segments, '.' ∉ segment := by
      intro segment hsegment hmem
      exact absurd ((hall segment hsegment).2 '.' hmem) (by decide)
    have hne : segments ≠ [] := List.ne_nil_of_length_pos (by omega)
    rw [List.splitOn_intercalate '.' hdot hne]
    exact ⟨hlength, hall⟩

end KeyLint.Wording
