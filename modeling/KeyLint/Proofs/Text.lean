import Mathlib.Data.List.Lattice
import Mathlib.Data.List.TakeWhile
import KeyLint.Span
import KeyLint.Text.Classes

/-!
# Facts about texts

What searching, cutting and trimming mean in terms of lists, and what stands at a span of a text.
-/

namespace KeyLint.Text

/-! ## Searching -/

theorem occursIn_iff_infix {w t : Text} : occursIn w t = true ↔ w <:+: t := by
  induction t with
  | nil => simp [occursIn]
  | cons c cs ih => simp [occursIn, List.infix_cons_iff, ih]

@[simp] theorem after?_append (w rest : Text) : after? w (w ++ rest) = some rest := by
  induction w with
  | nil => rfl
  | cons c w ih => simpa [after?] using ih

theorem after?_eq_none_iff {w t : Text} : after? w t = none ↔ ¬ w <+: t := by
  induction w generalizing t with
  | nil => simp [after?]
  | cons x w ih =>
      cases t with
      | nil => simp [after?]
      | cons c cs =>
          by_cases hx : x = c
          · simp [after?, hx, ih, List.cons_prefix_cons]
          · simp [after?, hx, List.cons_prefix_cons]

theorem before?_append (s w : Text) : before? w (s ++ w) = some s := by
  simp [before?]

theorem eq_append_of_before?_eq_some {w t rest : Text} (h : before? w t = some rest) :
    t = rest ++ w := by
  obtain ⟨rest', hafter, rfl⟩ := Option.map_eq_some_iff.mp h
  have heq := congrArg List.reverse (eq_append_of_after?_eq_some hafter)
  simpa using heq

theorem before?_eq_some_iff {w t rest : Text} : before? w t = some rest ↔ t = rest ++ w := by
  constructor
  · exact eq_append_of_before?_eq_some
  · rintro rfl
    exact before?_append rest w

theorem isSome_before?_iff {w t : Text} : (before? w t).isSome = true ↔ w <:+ t := by
  rw [before?, Option.isSome_map, Option.isSome_iff_ne_none, Ne, after?_eq_none_iff, not_not,
    List.reverse_prefix]

theorem dropLast_prefix_append (w rest : Text) : w.dropLast <+: w ++ rest :=
  (List.dropLast_prefix w).trans (List.prefix_append w rest)

/-- A word is cut out where it occurs first: it does not occur earlier, not even in part with that
place. -/
theorem cut?_eq_some_iff {w t before rest : Text} (hw : w ≠ []) :
    cut? w t = some (before, rest) ↔ t = before ++ w ++ rest ∧ ¬ w <:+: before ++ w.dropLast := by
  induction t generalizing before with
  | nil => simp [cut?, hw]
  | cons c cs ih =>
      have hlast : ¬ w <:+: w.dropLast := by
        intro h
        have hlen := h.length_le
        have hpos := List.length_pos_iff.mpr hw
        rw [List.length_dropLast] at hlen
        omega
      rw [cut?]
      cases hafter : after? w (c :: cs) with
      | some rest' =>
          have hcs := eq_append_of_after?_eq_some hafter
          simp only [Option.some.injEq, Prod.mk.injEq]
          constructor
          · rintro ⟨rfl, rfl⟩
            exact ⟨by simpa using hcs, by simpa using hlast⟩
          · rintro ⟨heq, hfirst⟩
            cases before with
            | nil =>
                rw [hcs, List.nil_append, List.append_cancel_left_eq] at heq
                exact ⟨rfl, heq⟩
            | cons b before =>
                -- The word would begin the text and end before the place of the later cut.
                refine absurd (List.IsPrefix.isInfix ?_) hfirst
                refine List.prefix_of_prefix_length_le ⟨rest', hcs.symm⟩ ?_ ?_
                · rw [heq, List.append_assoc, List.prefix_append_right_inj]
                  exact dropLast_prefix_append w rest
                · simp only [List.cons_append, List.length_cons, List.length_append,
                    List.length_dropLast]
                  omega
      | none =>
          rw [after?_eq_none_iff] at hafter
          simp only [Option.map_eq_some_iff, Prod.mk.injEq, Prod.exists]
          constructor
          · rintro ⟨b, r, hcut, rfl, rfl⟩
            obtain ⟨rfl, hfirst⟩ := ih.mp hcut
            refine ⟨by simp, ?_⟩
            rw [List.cons_append, List.infix_cons_iff]
            rintro (hpre | hin)
            · refine hafter (hpre.trans ?_)
              rw [List.append_assoc, ← List.cons_append, ← List.cons_append,
                List.prefix_append_right_inj]
              exact dropLast_prefix_append w r
            · exact hfirst hin
          · rintro ⟨heq, hfirst⟩
            cases before with
            | nil => exact absurd ⟨rest, by simpa using heq.symm⟩ hafter
            | cons b before =>
                simp only [List.cons_append, List.cons.injEq] at heq
                obtain ⟨rfl, rfl⟩ := heq
                refine ⟨before, rest, ih.mpr ⟨rfl, ?_⟩, rfl, rfl⟩
                exact fun hin => hfirst (hin.trans (List.suffix_cons c _).isInfix)

theorem cut?_append {w t before rest : Text} (hw : w ≠ []) (h : cut? w t = some (before, rest))
    (s : Text) : cut? w (t ++ s) = some (before, rest ++ s) := by
  obtain ⟨rfl, hfirst⟩ := (cut?_eq_some_iff hw).mp h
  exact (cut?_eq_some_iff hw).mpr ⟨by simp, hfirst⟩

theorem cut?_eq_none_iff {w t : Text} (hw : w ≠ []) : cut? w t = none ↔ ¬ w <:+: t := by
  induction t with
  | nil => simp [cut?, hw]
  | cons c cs ih =>
      rw [cut?, List.infix_cons_iff, not_or, ← after?_eq_none_iff, ← ih]
      cases after? w (c :: cs) with
      | some rest => simp
      | none => simp

theorem not_mem_of_cut? {c : Char} {t before rest : Text} (h : cut? [c] t = some (before, rest)) :
    c ∉ before := by
  obtain ⟨_, hfirst⟩ := (cut?_eq_some_iff (List.cons_ne_nil c [])).mp h
  intro hmem
  obtain ⟨s, t, rfl⟩ := List.append_of_mem hmem
  exact hfirst ⟨s, t, by simp⟩

theorem not_mem_of_cut?_eq_none {c : Char} {t : Text} (h : cut? [c] t = none) : c ∉ t := by
  intro hmem
  obtain ⟨s, rest, rfl⟩ := List.append_of_mem hmem
  exact (cut?_eq_none_iff (List.cons_ne_nil c [])).mp h ⟨s, rest, by simp⟩

theorem cut?_of_not_mem {c : Char} {t : Text} (h : c ∉ t) : cut? [c] t = none :=
  (cut?_eq_none_iff (List.cons_ne_nil c [])).mpr fun hin => h (hin.subset List.mem_cons_self)

theorem cut?_append_cons {c : Char} {s : Text} (h : c ∉ s) (t : Text) :
    cut? [c] (s ++ c :: t) = some (s, t) := by
  refine (cut?_eq_some_iff (List.cons_ne_nil c [])).mpr ⟨by simp, fun hin => h ?_⟩
  simpa using hin.subset List.mem_cons_self

theorem after?_append_of_disjoint {w s : Text} (h : w.Disjoint s) (t : Text) :
    after? w (t ++ s) = (after? w t).map (· ++ s) := by
  induction w generalizing t with
  | nil => rfl
  | cons x w ih =>
      obtain ⟨hx, hw⟩ := List.disjoint_cons_left.mp h
      cases t with
      | nil =>
          cases s with
          | nil => rfl
          | cons c s => simp [after?, List.ne_of_not_mem_cons hx]
      | cons c t =>
          by_cases hc : x = c
          · simpa [after?, hc] using ih hw t
          · simp [after?, hc]

theorem cut?_append_of_disjoint {w s : Text} (hw : w ≠ []) (h : w.Disjoint s) (t : Text) :
    cut? w (t ++ s) = (cut? w t).map (Prod.map id (· ++ s)) := by
  induction t with
  | nil =>
      cases hcut : cut? w s with
      | none => simp [cut?, hw, hcut]
      | some found =>
          obtain ⟨c, hc⟩ := List.exists_mem_of_ne_nil w hw
          have hs := eq_append_of_cut?_eq_some hcut
          exact absurd (hs ▸ by simp [hc]) (h hc)
  | cons c t ih =>
      have hafter := after?_append_of_disjoint h (c :: t)
      rw [List.cons_append] at hafter
      rw [List.cons_append, cut?, cut?, hafter, ih]
      cases after? w (c :: t) with
      | none => cases cut? w t <;> rfl
      | some rest => rfl

theorem cut?_append_left {x : Char} {s : Text} (hx : x ∉ s) (w t : Text) :
    cut? (x :: w) (s ++ t) = (cut? (x :: w) t).map (Prod.map (s ++ ·) id) := by
  induction s with
  | nil =>
      rw [List.nil_append]
      cases cut? (x :: w) t <;> rfl
  | cons c s ih =>
      obtain ⟨hc, hs⟩ := not_or.mp (List.mem_cons.not.mp hx)
      rw [List.cons_append, cut?, ih hs, after?, if_neg hc]
      cases cut? (x :: w) t <;> rfl

/-- Two equal characters stand side by side in a text only if they do in one of its parts or where
the parts meet. -/
theorem not_pair_infix_append {a : Char} {s t : Text} (hs : ¬ [a, a] <:+: s) (ht : ¬ [a, a] <:+: t)
    (hjoin : s.getLast? ≠ some a ∨ t.head? ≠ some a) : ¬ [a, a] <:+: s ++ t := by
  induction s with
  | nil => exact ht
  | cons c s ih =>
      rw [List.cons_append, List.infix_cons_iff]
      rintro (hpre | hin)
      · obtain ⟨hc, hpre⟩ := List.cons_prefix_cons.mp hpre
        cases s with
        | nil =>
            have hhead : t.head? = some a := by
              cases t with
              | nil => simp at hpre
              | cons d t => simpa using (List.cons_prefix_cons.mp hpre).1.symm
            rcases hjoin with hlast | hhead'
            · exact hlast (by simp [hc])
            · exact hhead' hhead
        | cons d s =>
            obtain ⟨hd, _⟩ := List.cons_prefix_cons.mp hpre
            exact hs ⟨[], s, by simp [← hc, ← hd]⟩
      · refine ih (fun h => hs (h.trans (List.suffix_cons c s).isInfix)) ?_ hin
        cases s with
        | nil => exact .inl (by simp)
        | cons d s => simpa using hjoin

/-- A word whose last character is not in the second part of a text does not reach into it. -/
theorem infix_of_infix_append {w s t : Text} {a : Char} (h : w ++ [a] <:+: s ++ t) (ha : a ∉ t) :
    w ++ [a] <:+: s := by
  obtain ⟨x, y, heq⟩ := h
  rcases List.append_eq_append_iff.mp heq with ⟨z, rfl, _⟩ | ⟨z, hs, rfl⟩
  · exact ⟨x, z, rfl⟩
  · rcases List.eq_nil_or_concat z with rfl | ⟨z, b, rfl⟩
    · exact ⟨x, [], by simpa using hs⟩
    · have hb : a = b := by simpa using congrArg List.getLast? hs
      exact absurd (by simp [hb]) ha

/-- A word whose first character is not in the first part of a text does not begin in it. -/
theorem infix_of_append_infix {w s t : Text} {a : Char} (h : a :: w <:+: s ++ t) (ha : a ∉ s) :
    a :: w <:+: t := by
  induction s with
  | nil => exact h
  | cons c s ih =>
      obtain ⟨hc, hs⟩ := not_or.mp (List.mem_cons.not.mp ha)
      rcases List.infix_cons_iff.mp h with hpre | hin
      · exact absurd (List.cons_prefix_cons.mp hpre).1 hc
      · exact ih hin hs

theorem not_pair_infix_of_not_mem {a : Char} {t : Text} (h : a ∉ t) : ¬ [a, a] <:+: t :=
  fun hin => h (hin.subset List.mem_cons_self)

/-! ## Splitting where a class of characters ends -/

theorem takeWhile_append_of_boundary {p : Char → Bool} {t : Text}
    (ht : ∀ c ∈ t.head?, p c = false) (s : Text) : (s ++ t).takeWhile p = s.takeWhile p := by
  induction s with
  | nil =>
      cases t with
      | nil => rfl
      | cons c t => simp [ht c rfl]
  | cons c s ih => simp only [List.cons_append, List.takeWhile_cons, ih]

theorem takeWhile_append_of_head? {p : Char → Bool} {s t : Text} (hs : ∀ c ∈ s, p c = true)
    (ht : ∀ c ∈ t.head?, p c = false) : (s ++ t).takeWhile p = s := by
  rw [takeWhile_append_of_boundary ht, List.takeWhile_eq_self_iff.mpr hs]

theorem dropWhile_append_of_head? {p : Char → Bool} {s t : Text} (hs : ∀ c ∈ s, p c = true)
    (ht : ∀ c ∈ t.head?, p c = false) : (s ++ t).dropWhile p = t := by
  rw [List.dropWhile_append_of_pos hs]
  cases t with
  | nil => simp
  | cons c t => simp [ht c rfl]

theorem exists_eq_append_cons {p : Char → Bool} {s : Text} (h : ∃ c ∈ s, p c = false) :
    ∃ t d rest, s = t ++ d :: rest ∧ (∀ c ∈ t, p c = true) ∧ p d = false := by
  induction s with
  | nil => simp at h
  | cons c s ih =>
      by_cases hc : p c = true
      · obtain ⟨x, hx, hfalse⟩ := h
        have hs : ∃ x ∈ s, p x = false := by
          rcases List.mem_cons.mp hx with rfl | hx
          · rw [hc] at hfalse
            cases hfalse
          · exact ⟨x, hx, hfalse⟩
        obtain ⟨t, d, rest, rfl, ht, hd⟩ := ih hs
        exact ⟨c :: t, d, rest, rfl, List.forall_mem_cons.mpr ⟨hc, ht⟩, hd⟩
      · exact ⟨[], c, s, rfl, by simp, by simpa using hc⟩

theorem takeWhile_ne_append {d : Char} {s : Text} (h : d ∉ s) (t : Text) :
    (s ++ d :: t).takeWhile (· ≠ d) = s :=
  takeWhile_append_of_head? (fun _ hc => by simpa using ne_of_mem_of_not_mem hc h) (by simp)

theorem dropWhile_ne_append {d : Char} {s : Text} (h : d ∉ s) (t : Text) :
    (s ++ d :: t).dropWhile (· ≠ d) = d :: t :=
  dropWhile_append_of_head? (fun _ hc => by simpa using ne_of_mem_of_not_mem hc h) (by simp)

theorem dropWhile_ne_of_not_mem {d : Char} {t : Text} (h : d ∉ t) : t.dropWhile (· ≠ d) = [] :=
  List.dropWhile_eq_nil_iff.mpr fun _ hc => by simpa using ne_of_mem_of_not_mem hc h

theorem afterLast_append {p : Char → Bool} {s t : Text} (hs : ∀ c ∈ s.getLast?, p c = true)
    (ht : ∀ c ∈ t, p c = false) : afterLast p (s ++ t) = t := by
  have htake : (t.reverse ++ s.reverse).takeWhile (fun c => !p c) = t.reverse :=
    takeWhile_append_of_head? (fun c hc => by simp [ht c (List.mem_reverse.mp hc)])
      (fun c hc => by simpa using hs c (by simpa using hc))
  rw [afterLast, List.reverse_append, htake, List.reverse_reverse]

/-! ## Bytes and spans -/

theorem bytes_pos_of_ne_nil {t : Text} (h : t ≠ []) : 0 < bytes t := by
  cases t with
  | nil => exact absurd rfl h
  | cons c cs => exact Nat.add_pos_left c.utf8Size_pos _

theorem dropBytes?_append (s t : Text) : dropBytes? (s ++ t) (bytes s) = some t := by
  induction s with
  | nil => cases t <;> rfl
  | cons c s ih =>
      obtain ⟨n, hn⟩ : ∃ n, c.utf8Size + bytes s = n + 1 :=
        Nat.exists_eq_succ_of_ne_zero (Nat.ne_of_gt (Nat.add_pos_left c.utf8Size_pos _))
      rw [List.cons_append, bytes_cons, hn, dropBytes?, if_pos (by omega),
        show n + 1 - c.utf8Size = bytes s by omega]
      exact ih

theorem takeBytes?_append (s t : Text) : takeBytes? (s ++ t) (bytes s) = some s := by
  induction s with
  | nil => cases t <;> rfl
  | cons c s ih =>
      obtain ⟨n, hn⟩ : ∃ n, c.utf8Size + bytes s = n + 1 :=
        Nat.exists_eq_succ_of_ne_zero (Nat.ne_of_gt (Nat.add_pos_left c.utf8Size_pos _))
      rw [List.cons_append, bytes_cons, hn, takeBytes?, if_pos (by omega),
        show n + 1 - c.utf8Size = bytes s by omega, ih]
      rfl

/-- What stands in a text at a span, if both ends of it lie between characters of the text. -/
def slice? (t : Text) (span : Span) : Option Text :=
  (dropBytes? t span.start).bind fun rest => takeBytes? rest (span.stop - span.start)

theorem slice?_append (before w rest : Text) :
    slice? (before ++ w ++ rest) ⟨bytes before, bytes before + bytes w⟩ = some w := by
  simp [slice?, List.append_assoc, dropBytes?_append, takeBytes?_append]

/-! ## Trimming -/

theorem eq_trimEnd_append (t : Text) : t = trimEnd t ++ (t.reverse.takeWhile isBlank).reverse := by
  rw [trimEnd, ← List.reverse_append, List.takeWhile_append_dropWhile, List.reverse_reverse]

theorem trimEnd_append_cons {c : Char} (hc : isBlank c = false) (s : Text) {blanks : Text}
    (h : ∀ b ∈ blanks, isBlank b = true) : trimEnd (s ++ c :: blanks) = s ++ [c] := by
  have hdrop : (blanks.reverse ++ c :: s.reverse).dropWhile isBlank = c :: s.reverse :=
    dropWhile_append_of_head? (fun b hb => h b (List.mem_reverse.mp hb)) (by simp [hc])
  simp [trimEnd, hdrop]

theorem eq_append_trim (t : Text) :
    ∃ rest, t = t.takeWhile isBlank ++ trim t ++ rest ∧ ∀ c ∈ rest, isBlank c = true := by
  refine ⟨((trimStart t).reverse.takeWhile isBlank).reverse, ?_, ?_⟩
  · rw [List.append_assoc, trim, ← eq_trimEnd_append, trimStart, List.takeWhile_append_dropWhile]
  · intro c hc
    exact List.mem_takeWhile_imp (List.mem_reverse.mp hc)

theorem eq_false_of_head?_dropWhile {p : Char → Bool} {t : Text} {c : Char}
    (h : (t.dropWhile p).head? = some c) : p c = false := by
  have hnot := List.head?_dropWhile_not p t
  rwa [h] at hnot

theorem not_isBlank_of_head?_trim {t : Text} {c : Char} (h : (trim t).head? = some c) :
    isBlank c = false := by
  refine eq_false_of_head?_dropWhile (p := isBlank) (t := t) ?_
  rw [← trimStart, eq_trimEnd_append (trimStart t), ← trim, List.head?_append, h]
  rfl

theorem not_isBlank_of_getLast?_trim {t : Text} {c : Char} (h : (trim t).getLast? = some c) :
    isBlank c = false := by
  rw [trim, trimEnd, List.getLast?_reverse] at h
  exact eq_false_of_head?_dropWhile h

theorem exists_eq_append_afterLast (p : Char → Bool) (t : Text) :
    ∃ s, t = s ++ afterLast p t ∧ (∀ c ∈ s.getLast?, p c = true) ∧
      ∀ c ∈ afterLast p t, p c = false := by
  refine ⟨(t.reverse.dropWhile fun c => !p c).reverse, ?_, ?_, ?_⟩
  · rw [afterLast, ← List.reverse_append, List.takeWhile_append_dropWhile, List.reverse_reverse]
  · intro c hc
    rw [List.getLast?_reverse] at hc
    simpa using eq_false_of_head?_dropWhile hc
  · intro c hc
    simpa using List.mem_takeWhile_imp (List.mem_reverse.mp hc)

theorem trimEnd_append {blanks : Text} (h : ∀ c ∈ blanks, isBlank c = true) (t : Text) :
    trimEnd (t ++ blanks) = trimEnd t := by
  rw [trimEnd, List.reverse_append,
    List.dropWhile_append_of_pos fun c hc => h c (List.mem_reverse.mp hc), trimEnd]

theorem trim_append_blanks {before after : Text} (hbefore : ∀ c ∈ before, isBlank c = true)
    (hafter : ∀ c ∈ after, isBlank c = true) (t : Text) :
    trim (before ++ t ++ after) = trim t := by
  rw [List.append_assoc, trim, trimStart, List.dropWhile_append_of_pos hbefore,
    List.dropWhile_append]
  split
  · next hempty =>
      rw [List.dropWhile_eq_nil_iff.mpr hafter, trim, trimStart, List.isEmpty_iff.mp hempty]
  · rw [trimEnd_append hafter, trim, trimStart]

/-! ## Pieces between the characters of a class -/

theorem splitWhere_ne_nil (p : Char → Bool) (t : Text) : splitWhere p t ≠ [] := by
  cases t with
  | nil => simp [splitWhere]
  | cons c cs =>
      rw [splitWhere]
      split
      · simp
      · split <;> simp

theorem splitWhere_append_cons {p : Char → Bool} {d : Char} (hd : p d = true) (s t : Text) :
    splitWhere p (s ++ d :: t) = splitWhere p s ++ splitWhere p t := by
  induction s with
  | nil => simp [splitWhere, hd]
  | cons c s ih =>
      rw [List.cons_append, splitWhere, splitWhere, ih]
      obtain ⟨piece, pieces, hs⟩ := List.exists_cons_of_ne_nil (splitWhere_ne_nil p s)
      by_cases hc : p c = true
      · simp [hc]
      · simp [hc, hs]

theorem splitWhere_append {p : Char → Bool} {s t piece : Text} {pieces : List Text}
    (hs : ∀ c ∈ s, p c = false) (ht : splitWhere p t = piece :: pieces) :
    splitWhere p (s ++ t) = (s ++ piece) :: pieces := by
  induction s with
  | nil => exact ht
  | cons c s ih =>
      rw [List.cons_append, splitWhere, ih fun x hx => hs x (List.mem_cons_of_mem c hx)]
      simp [hs c List.mem_cons_self]

theorem splitWhere_eq_singleton {p : Char → Bool} {s : Text} (hs : ∀ c ∈ s, p c = false) :
    splitWhere p s = [s] := by
  have h := splitWhere_append (t := []) hs rfl
  rwa [List.append_nil] at h

/-- A text is its first piece and, if there are more, a separating character and the text of
those. -/
theorem of_splitWhere_eq_cons {p : Char → Bool} {t piece : Text} {pieces : List Text}
    (h : splitWhere p t = piece :: pieces) :
    (∀ c ∈ piece, p c = false) ∧
      ((pieces = [] ∧ t = piece) ∨
        ∃ d rest, p d = true ∧ t = piece ++ d :: rest ∧ splitWhere p rest = pieces) := by
  induction t generalizing piece with
  | nil =>
      cases h
      exact ⟨by simp, .inl ⟨rfl, rfl⟩⟩
  | cons c t ih =>
      rw [splitWhere] at h
      obtain ⟨first, more, ht⟩ := List.exists_cons_of_ne_nil (splitWhere_ne_nil p t)
      by_cases hc : p c = true
      · rw [if_pos hc] at h
        cases h
        exact ⟨by simp, .inr ⟨c, t, hc, rfl, rfl⟩⟩
      · rw [if_neg hc, ht] at h
        cases h
        obtain ⟨hfirst, hrest⟩ := ih ht
        refine ⟨List.forall_mem_cons.mpr ⟨by simpa using hc, hfirst⟩, ?_⟩
        rcases hrest with ⟨rfl, rfl⟩ | ⟨d, rest, hd, rfl, hrest⟩
        · exact .inl ⟨rfl, rfl⟩
        · exact .inr ⟨d, rest, hd, rfl, hrest⟩

/-- A text is its last piece and, if there are more, the text of those and a separating
character. -/
theorem of_splitWhere_eq_concat {p : Char → Bool} {t piece : Text} {pieces : List Text}
    (h : splitWhere p t = pieces ++ [piece]) :
    (∀ c ∈ piece, p c = false) ∧
      ((pieces = [] ∧ t = piece) ∨
        ∃ s d, p d = true ∧ t = s ++ d :: piece ∧ splitWhere p s = pieces) := by
  induction pieces generalizing t with
  | nil =>
      obtain ⟨hpiece, ⟨_, rfl⟩ | ⟨_, rest, _, _, hrest⟩⟩ := of_splitWhere_eq_cons h
      · exact ⟨hpiece, .inl ⟨rfl, rfl⟩⟩
      · exact absurd hrest (splitWhere_ne_nil p rest)
  | cons first pieces ih =>
      obtain ⟨hfirst, ⟨hnil, _⟩ | ⟨d, rest, hd, rfl, hrest⟩⟩ := of_splitWhere_eq_cons h
      · exact absurd hnil (by simp)
      · obtain ⟨hpiece, ⟨rfl, rfl⟩ | ⟨s, e, he, rfl, rfl⟩⟩ := ih hrest
        · exact ⟨hpiece, .inr ⟨first, d, hd, rfl, splitWhere_eq_singleton hfirst⟩⟩
        · refine ⟨hpiece, .inr ⟨first ++ d :: s, e, he, by simp, ?_⟩⟩
          rw [splitWhere_append_cons hd, splitWhere_eq_singleton hfirst]
          rfl

theorem mem_iff_of_splitWhere {p : Char → Bool} {t : Text} {c : Char} :
    (∃ piece ∈ splitWhere p t, c ∈ piece) ↔ c ∈ t ∧ p c = false := by
  induction t with
  | nil => simp [splitWhere]
  | cons b t ih =>
      obtain ⟨first, more, ht⟩ := List.exists_cons_of_ne_nil (splitWhere_ne_nil p t)
      rw [splitWhere]
      by_cases hb : p b = true
      · rw [if_pos hb]
        simp only [List.mem_cons, exists_eq_or_imp, List.not_mem_nil, false_or, ih]
        constructor
        · exact fun h => ⟨.inr h.1, h.2⟩
        · rintro ⟨rfl | hmem, hc⟩
          · rw [hb] at hc
            cases hc
          · exact ⟨hmem, hc⟩
      · rw [if_neg hb]
        simp only [ht, List.mem_cons, exists_eq_or_imp] at ih ⊢
        rw [or_assoc, ih]
        constructor
        · rintro (rfl | h)
          · exact ⟨.inl rfl, by simpa using hb⟩
          · exact ⟨.inr h.1, h.2⟩
        · rintro ⟨rfl | hmem, hc⟩
          · exact .inl rfl
          · exact .inr ⟨hmem, hc⟩

theorem splitWhere_congr {p q : Char → Bool} {t : Text} (h : ∀ c ∈ t, p c = q c) :
    splitWhere p t = splitWhere q t := by
  induction t with
  | nil => rfl
  | cons c t ih =>
      obtain ⟨hc, ht⟩ := List.forall_mem_cons.mp h
      rw [splitWhere, splitWhere, hc, ih ht]

theorem splitWhere_eq_splitOnP (p : Char → Bool) (t : Text) : splitWhere p t = t.splitOnP p := by
  induction t with
  | nil => simp [splitWhere]
  | cons c t ih =>
      obtain ⟨piece, pieces, ht⟩ := List.exists_cons_of_ne_nil (List.splitOnP_ne_nil p t)
      rw [splitWhere, ih, List.splitOnP_cons_eq_if_modifyHead, ht]
      rfl

theorem splitOn_eq_splitOn (d : Char) (t : Text) : splitOn d t = List.splitOn d t := by
  rw [splitOn, splitWhere_eq_splitOnP, List.splitOn_eq_splitOnP]
  simp only [beq_eq_decide]

theorem intercalate_append {sep : Text} {xs ys : List Text} (hxs : xs ≠ []) (hys : ys ≠ []) :
    sep.intercalate (xs ++ ys) = sep.intercalate xs ++ sep ++ sep.intercalate ys := by
  induction xs with
  | nil => exact absurd rfl hxs
  | cons x xs ih =>
      cases xs with
      | nil => simpa using List.intercalate_cons_of_ne_nil hys
      | cons x' xs =>
          have hrest : x' :: xs ≠ [] := List.cons_ne_nil x' xs
          rw [List.cons_append, List.intercalate_cons_of_ne_nil (by simp), ih hrest,
            List.intercalate_cons_of_ne_nil hrest]
          simp only [List.append_assoc]

theorem join_eq_intercalate (sep : Text) (ts : List Text) : join sep ts = sep.intercalate ts := by
  induction ts with
  | nil => rfl
  | cons t ts ih =>
      cases ts with
      | nil => simp [join]
      | cons t' ts =>
          rw [List.intercalate_cons_of_ne_nil (List.cons_ne_nil t' ts), ← ih]
          rfl

theorem forall_mem_join {P : Char → Prop} {sep : Text} (hsep : ∀ c ∈ sep, P c) {ts : List Text}
    (h : ∀ t ∈ ts, ∀ c ∈ t, P c) : ∀ c ∈ join sep ts, P c := by
  induction ts with
  | nil => simp [join]
  | cons t ts ih =>
      obtain ⟨ht, hts⟩ := List.forall_mem_cons.mp h
      cases ts with
      | nil => exact ht
      | cons t' ts =>
          exact List.forall_mem_append.mpr ⟨List.forall_mem_append.mpr ⟨ht, hsep⟩, ih hts⟩

/-- The pieces of one text are the first pieces of another exactly if the texts are the same or the
second goes on after the first with the separating character. -/
theorem splitOn_isPrefix_iff {d : Char} {s t : Text} :
    List.splitOn d s <+: List.splitOn d t ↔ s = t ∨ s ++ [d] <+: t := by
  constructor
  · rintro ⟨more, hmore⟩
    have ht : [d].intercalate (List.splitOn d t) = t := List.intercalate_splitOn d
    cases more with
    | nil =>
        rw [← hmore, List.append_nil, List.intercalate_splitOn] at ht
        exact .inl ht
    | cons piece more =>
        rw [← hmore, intercalate_append (List.splitOn_ne_nil d s) (by simp),
          List.intercalate_splitOn] at ht
        exact .inr ⟨_, ht⟩
  · rintro (rfl | ⟨rest, rfl⟩)
    · exact List.prefix_rfl
    · rw [List.append_assoc, List.singleton_append, List.splitOn_append_cons_self]
      exact List.prefix_append _ _

/-- A longest part of a text without characters of the class `p`. -/
def IsRun (p : Char → Bool) (run t : Text) : Prop :=
  ∃ before after, t = before ++ run ++ after ∧ (∀ c ∈ run, p c = false) ∧
    (∀ c ∈ before.getLast?, p c = true) ∧ ∀ c ∈ after.head?, p c = true

theorem IsRun.append_cons {p : Char → Bool} {d : Char} (hd : p d = true) (s : Text)
    {run t : Text} (h : IsRun p run t) : IsRun p run (s ++ d :: t) := by
  obtain ⟨before, after, rfl, hrun, hbefore, hafter⟩ := h
  refine ⟨s ++ d :: before, after, by simp, hrun, ?_, hafter⟩
  intro c hc
  rw [List.getLast?_append, List.getLast?_cons] at hc
  cases hlast : before.getLast? with
  | none =>
      rw [hlast] at hc
      cases hc
      exact hd
  | some e =>
      rw [hlast] at hc
      cases hc
      exact hbefore e (by simp [hlast])

theorem mem_splitWhere_iff {p : Char → Bool} {run t : Text} :
    run ∈ splitWhere p t ↔ IsRun p run t := by
  constructor
  · intro h
    generalize hsplit : splitWhere p t = pieces at h
    induction pieces generalizing t with
    | nil => cases h
    | cons piece pieces ih =>
        obtain ⟨hpiece, ⟨rfl, rfl⟩ | ⟨d, rest, hd, rfl, hrest⟩⟩ := of_splitWhere_eq_cons hsplit
        · rw [List.mem_singleton] at h
          subst h
          exact ⟨[], [], by simp, hpiece, by simp, by simp⟩
        · rcases List.mem_cons.mp h with rfl | hmem
          · exact ⟨[], d :: rest, by simp, hpiece, by simp, by simp [hd]⟩
          · exact (ih hrest hmem).append_cons hd piece
  · rintro ⟨before, after, rfl, hrun, hbefore, hafter⟩
    have hfirst : run ∈ splitWhere p (run ++ after) := by
      cases after with
      | nil => simp [splitWhere_eq_singleton hrun]
      | cons c after => simp [splitWhere_append_cons (hafter c rfl), splitWhere_eq_singleton hrun]
    rcases List.eq_nil_or_concat before with rfl | ⟨before, d, rfl⟩
    · simpa using hfirst
    · have hd : p d = true := hbefore d (by simp)
      rw [List.concat_eq_append, List.append_assoc, List.append_assoc, List.singleton_append,
        splitWhere_append_cons hd]
      exact List.mem_append_right _ hfirst

/-! ## Blanks -/

/-- The code points of the blanks. -/
def blankCodes : List Nat :=
  [0x9, 0xa, 0xb, 0xc, 0xd, 0x20, 0x85, 0xa0, 0x1680, 0x2000, 0x2001, 0x2002, 0x2003, 0x2004, 0x2005,
   0x2006, 0x2007, 0x2008, 0x2009, 0x200a, 0x2028, 0x2029, 0x202f, 0x205f, 0x3000]

theorem mem_blankCodes_of_isBlank {c : Char} (h : isBlank c = true) : c.toNat ∈ blankCodes := by
  simp only [isBlank, Bool.or_eq_true, Bool.and_eq_true, decide_eq_true_eq] at h
  rcases h with (((((((((htab | rfl) | rfl) | rfl) | rfl) | hquad) | rfl) | rfl) | rfl) | rfl) | rfl
  · have hlow : 9 ≤ c.toNat := htab.1
    have hhigh : c.toNat ≤ 13 := htab.2
    simp only [blankCodes, List.mem_cons]
    omega
  · decide
  · decide
  · decide
  · decide
  · have hlow : 0x2000 ≤ c.toNat := hquad.1
    have hhigh : c.toNat ≤ 0x200a := hquad.2
    simp only [blankCodes, List.mem_cons]
    omega
  · decide
  · decide
  · decide
  · decide
  · decide

theorem eq_false_of_isBlank {p : Char → Bool}
    (hp : blankCodes.all (fun n => !p (Char.ofNat n)) = true) {c : Char} (h : isBlank c = true) :
    p c = false := by
  have hc := List.all_eq_true.mp hp c.toNat (mem_blankCodes_of_isBlank h)
  rw [Char.ofNat_toNat] at hc
  simpa using hc

/-- A word without blanks that stands in a text between blanks stands in the text. -/
theorem infix_append_blanks_iff {w before after : Text} (hw : w ≠ [])
    (hplain : ∀ c ∈ w, isBlank c = false) (hbefore : ∀ c ∈ before, isBlank c = true)
    (hafter : ∀ c ∈ after, isBlank c = true) (t : Text) :
    w <:+: before ++ t ++ after ↔ w <:+: t := by
  have hnot {c : Char} {blanks : Text} (hc : c ∈ w) (h : ∀ b ∈ blanks, isBlank b = true) :
      c ∉ blanks := by
    intro hmem
    have hblank := h c hmem
    rw [hplain c hc] at hblank
    cases hblank
  constructor
  · intro h
    have hin : w <:+: before ++ t := by
      obtain ⟨w', last, hlast⟩ := (List.eq_nil_or_concat w).resolve_left hw
      rw [List.concat_eq_append] at hlast
      rw [hlast] at h ⊢
      exact infix_of_infix_append h (hnot (by simp [hlast]) hafter)
    cases w with
    | nil => exact absurd rfl hw
    | cons first w => exact infix_of_append_infix hin (hnot List.mem_cons_self hbefore)
  · exact fun h => h.trans ⟨before, after, rfl⟩

/-! ## Case -/

theorem toNat_ofNat_of_lt {n : Nat} (h : n < 0xd800) : (Char.ofNat n).toNat = n := by
  rw [Char.ofNat, dif_pos (.inl h)]
  rfl

theorem toNat_toLower {c : Char} (h : 'A' ≤ c ∧ c ≤ 'Z') : c.toLower.toNat = c.toNat + 32 := by
  have hhigh : c.toNat ≤ 90 := h.2
  have hval : c.toLower.val = c.val + ('a'.val - 'A'.val) := by
    delta Char.toLower
    rw [dif_pos (by exact h)]
  rw [Char.toNat, hval, UInt32.toNat_add]
  change (c.toNat + 32) % 4294967296 = _
  omega

theorem toNat_toUpper {c : Char} (h : 'a' ≤ c ∧ c ≤ 'z') : c.toUpper.toNat = c.toNat - 32 := by
  have hlow : 97 ≤ c.toNat := h.1
  have hhigh : c.toNat ≤ 122 := h.2
  have hval : c.toUpper.val = c.val + ('A'.val - 'a'.val) := by
    delta Char.toUpper
    rw [dif_pos (by exact h)]
  rw [Char.toNat, hval, UInt32.toNat_add]
  change (c.toNat + 4294967264) % 4294967296 = _
  omega

theorem toSmallAscii_eq_toLower (c : Char) : toSmallAscii c = c.toLower := by
  by_cases h : 'A' ≤ c ∧ c ≤ 'Z'
  · have hhigh : c.toNat ≤ 90 := h.2
    rw [toSmallAscii, if_pos (by simpa using h)]
    refine Char.toNat_inj.mp ?_
    rw [toNat_ofNat_of_lt (by omega), toNat_toLower h]
  · have hlower : c.toLower = c := dif_neg h
    rw [toSmallAscii, if_neg (by simpa using h), hlower]

theorem toCapitalAscii_eq_toUpper (c : Char) : toCapitalAscii c = c.toUpper := by
  by_cases h : 'a' ≤ c ∧ c ≤ 'z'
  · have hhigh : c.toNat ≤ 122 := h.2
    rw [toCapitalAscii, if_pos (by simpa using h)]
    refine Char.toNat_inj.mp ?_
    rw [toNat_ofNat_of_lt (by omega), toNat_toUpper h]
  · have hupper : c.toUpper = c := dif_neg h
    rw [toCapitalAscii, if_neg (by simpa using h), hupper]

theorem toUpper_mem_capitals {c : Char} (h : 'a' ≤ c ∧ c ≤ 'z') :
    'A' ≤ c.toUpper ∧ c.toUpper ≤ 'Z' := by
  have hlow : 97 ≤ c.toNat := h.1
  have hhigh : c.toNat ≤ 122 := h.2
  have hupper := toNat_toUpper h
  constructor
  · show 65 ≤ c.toUpper.toNat
    omega
  · show c.toUpper.toNat ≤ 90
    omega

theorem eq_of_toSmallAscii_eq {c d : Char} (h : toSmallAscii c = d)
    (hd : isAsciiLetter d = false) : c = d := by
  by_cases hcapital : 'A' ≤ c ∧ c ≤ 'Z'
  · have hlow : 65 ≤ c.toNat := hcapital.1
    have hhigh : c.toNat ≤ 90 := hcapital.2
    have hnat : d.toNat = c.toNat + 32 := by
      rw [← h, toSmallAscii_eq_toLower, toNat_toLower hcapital]
    have hsmall : 'a' ≤ d ∧ d ≤ 'z' := by
      constructor
      · show 97 ≤ d.toNat
        omega
      · show d.toNat ≤ 122
        omega
    simp [isAsciiLetter, hsmall] at hd
  · rwa [toSmallAscii, if_neg (by simpa using hcapital)] at h

end KeyLint.Text
