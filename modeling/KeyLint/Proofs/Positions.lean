import Mathlib.Data.Prod.Lex
import Mathlib.Data.Set.Function
import KeyLint.Proofs.Cursor.Checked
import KeyLint.Proofs.Lines

/-!
# Offsets and positions

The position of an offset counts the line feeds before it, and the characters since the last of them.
Offsets between characters have different positions, which are in the order of the offsets.
-/

namespace KeyLint.Text

/-! ## Offsets between and inside characters -/

theorem takeBytes?_eq_some_iff {t before : Text} {offset : Nat} :
    takeBytes? t offset = some before ↔ ∃ after, t = before ++ after ∧ offset = bytes before := by
  constructor
  · intro h
    fun_induction takeBytes? t offset generalizing before with
    | case1 t =>
        cases h
        exact ⟨t, rfl, rfl⟩
    | case2 => cases h
    | case3 c t n hle ih =>
        obtain ⟨s, hs, rfl⟩ := Option.map_eq_some_iff.mp h
        obtain ⟨after, rfl, hn⟩ := ih hs
        exact ⟨after, rfl, by rw [bytes_cons]; omega⟩
    | case4 => cases h
  · rintro ⟨after, rfl, rfl⟩
    exact takeBytes?_append before after

/-- An offset in a text is between two characters, at an end of the text, or inside a character. -/
theorem offset_cases {t : Text} {offset : Nat} (h : offset ≤ bytes t) :
    (∃ before after, t = before ++ after ∧ offset = bytes before) ∨
      ∃ before c after k, t = before ++ c :: after ∧ offset = bytes before + k ∧
        0 < k ∧ k < c.utf8Size := by
  induction t generalizing offset with
  | nil => exact .inl ⟨[], [], rfl, Nat.le_zero.mp h⟩
  | cons c t ih =>
      rcases Nat.eq_zero_or_pos offset with rfl | hpos
      · exact .inl ⟨[], c :: t, rfl, rfl⟩
      · by_cases hinside : offset < c.utf8Size
        · exact .inr ⟨[], c, t, offset, rfl, (Nat.zero_add offset).symm, hpos, hinside⟩
        · rw [bytes_cons] at h
          obtain ⟨before, after, rfl, hoffset⟩ | ⟨before, d, after, k, rfl, hoffset, hk⟩ :=
            ih (show offset - c.utf8Size ≤ bytes t by omega)
          · exact .inl ⟨c :: before, after, rfl, by rw [bytes_cons]; omega⟩
          · exact .inr ⟨c :: before, d, after, k, rfl, by rw [bytes_cons]; omega, hk⟩

theorem takeBytes?_inside {before after : Text} {c : Char} {k : Nat} (hpos : 0 < k)
    (hk : k < c.utf8Size) : takeBytes? (before ++ c :: after) (bytes before + k) = none := by
  rw [Option.eq_none_iff_forall_ne_some]
  intro s hs
  obtain ⟨rest, htext, hoffset⟩ := takeBytes?_eq_some_iff.mp hs
  rcases List.append_eq_append_iff.mp htext with ⟨mid, rfl, hmid⟩ | ⟨mid, rfl, hmid⟩
  · -- The cut would lie behind the character that the offset is inside of.
    cases mid with
    | nil => simp at hoffset; omega
    | cons d mid =>
        obtain ⟨rfl, _⟩ := List.cons.inj hmid
        simp only [bytes_append, bytes_cons] at hoffset
        omega
  · rw [bytes_append] at hoffset
    omega

/-! ## Following a text -/

theorem advance_of_le (here : Position) {t : Text} {offset : Nat} (h : bytes t ≤ offset) :
    advance here t offset = t.foldl Position.after here := by
  induction t generalizing here offset with
  | nil => cases offset <;> rfl
  | cons c t ih =>
      have hpos := c.utf8Size_pos
      rw [bytes_cons] at h
      obtain ⟨n, rfl⟩ := Nat.exists_eq_succ_of_ne_zero (show offset ≠ 0 by omega)
      rw [Nat.succ_eq_add_one] at h ⊢
      rw [advance, if_pos (by omega)]
      exact ih _ (by omega)

theorem position_min (t : Text) (offset : Nat) :
    position t (min offset (bytes t)) = position t offset := by
  rcases Nat.le_total offset (bytes t) with hle | hle
  · rw [Nat.min_eq_left hle]
  · rw [Nat.min_eq_right hle, position, position, advance_of_le _ hle, advance_of_le _ Nat.le.refl]

theorem position_boundary (before after : Text) :
    position (before ++ after) (bytes before)
      = ⟨before.count '\n' + 1, (afterLast (· = '\n') before).length + 1⟩ := by
  obtain ⟨lines, start, rfl, hlines, hstart⟩ := exists_beginsLine before
  have hlast : afterLast (· = '\n') (lines ++ start) = start := by
    refine afterLast_append ?_ fun c hc => decide_eq_false fun heq => hstart (heq ▸ hc)
    rcases hlines with rfl | ⟨s, rfl⟩ <;> simp
  rw [position_of_beginsLine hlines hstart, List.count_append, List.count_eq_zero_of_not_mem hstart,
    hlast, Nat.add_zero]

theorem advance_inside (here : Position) (before after : Text) {c : Char} {k : Nat} (hpos : 0 < k)
    (hk : k < c.utf8Size) :
    advance here (before ++ c :: after) (bytes before + k)
      = ⟨here.line + before.count '\n', 1⟩ := by
  induction before generalizing here with
  | nil =>
      obtain ⟨n, rfl⟩ := Nat.exists_eq_succ_of_ne_zero (Nat.ne_of_gt hpos)
      rw [List.nil_append, bytes_nil, Nat.zero_add, advance, if_neg (by omega)]
      simp
  | cons d before ih =>
      obtain ⟨n, hn⟩ : ∃ n, bytes (d :: before) + k = n + 1 :=
        Nat.exists_eq_succ_of_ne_zero (by omega)
      have hsize := hn
      rw [bytes_cons] at hsize
      have hnext := ih (here.after d)
      rw [List.cons_append, hn, advance, if_pos (by omega),
        show n + 1 - d.utf8Size = bytes before + k by omega]
      refine hnext.trans ?_
      have hline := line_foldl_after here [d]
      rw [List.foldl_cons, List.foldl_nil] at hline
      rw [hline, Nat.add_assoc, ← List.count_append, List.singleton_append]

theorem position_inside (before after : Text) {c : Char} {k : Nat} (hpos : 0 < k)
    (hk : k < c.utf8Size) :
    position (before ++ c :: after) (bytes before + k) = ⟨before.count '\n' + 1, 1⟩ := by
  rw [position, advance_inside _ before after hpos hk, Nat.add_comm]

/-! ## Line feeds among the bytes -/

open Cursor (utf8 octets IsAscii)

theorem isAscii_feed : IsAscii '\n' := by decide

theorem count_octets (c : Char) : (octets c).count '\n' = [c].count '\n' := by
  by_cases hc : IsAscii c
  · rw [Cursor.octets_of_isAscii hc]
  · have hoctets : '\n' ∉ octets c := fun hmem =>
      Cursor.not_isAscii_of_mem_octets hc hmem isAscii_feed
    have hfeed : c ≠ '\n' := by
      rintro rfl
      exact hc isAscii_feed
    rw [List.count_eq_zero_of_not_mem hoctets, List.count_eq_zero_of_not_mem (by simpa using hfeed.symm)]

theorem count_utf8 (t : Text) : (utf8 t).count '\n' = t.count '\n' := by
  induction t with
  | nil => rfl
  | cons c t ih =>
      rw [Cursor.utf8_cons, List.count_append, count_octets, ih, ← List.count_append,
        List.singleton_append]

theorem take_utf8_inside (before after : Text) (c : Char) {k : Nat} (hk : k < c.utf8Size) :
    (utf8 (before ++ c :: after)).take (bytes before + k) = utf8 before ++ (octets c).take k := by
  have hlength : k ≤ (octets c).length := by
    rw [Cursor.length_octets]
    omega
  rw [Cursor.utf8_append, Cursor.utf8_cons, ← Cursor.length_utf8 before, List.take_length_add_append,
    List.take_append_of_le_length hlength]

theorem not_isAscii_of_inside {c : Char} {k : Nat} (hpos : 0 < k) (hk : k < c.utf8Size) :
    ¬ IsAscii c := by
  intro hc
  rw [Cursor.utf8Size_of_isAscii hc] at hk
  omega

/-! ## The position of an offset -/

/-- The position of an offset by the bytes and characters before it. -/
structure IsPlaced (t : Text) (offset : Nat) (p : Position) : Prop where
  line : p.line = 1 + ((utf8 t).take offset).count '\n'
  column : ∀ before, takeBytes? t offset = some before →
    p.column = 1 + (afterLast (· = '\n') before).length
  inside : takeBytes? t offset = none → p.column = 1

theorem isPlaced_position {t : Text} {offset : Nat} (h : offset ≤ bytes t) :
    IsPlaced t offset (position t offset) := by
  rcases offset_cases h with ⟨before, after, rfl, rfl⟩ | ⟨before, c, after, k, rfl, rfl, hpos, hk⟩
  · rw [position_boundary]
    refine ⟨?_, fun s hs => ?_, fun hnone => ?_⟩
    · rw [Cursor.take_utf8, count_utf8]
      exact Nat.add_comm _ 1
    · rw [takeBytes?_append, Option.some_inj] at hs
      rw [← hs]
      exact Nat.add_comm _ 1
    · rw [takeBytes?_append] at hnone
      cases hnone
  · rw [position_inside before after hpos hk]
    refine ⟨?_, fun s hs => ?_, fun _ => rfl⟩
    · have hfeed : '\n' ∉ (octets c).take k := fun hmem =>
        Cursor.not_isAscii_of_mem_octets (not_isAscii_of_inside hpos hk) (List.mem_of_mem_take hmem)
          isAscii_feed
      rw [take_utf8_inside before after c hk, List.count_append, count_utf8,
        List.count_eq_zero_of_not_mem hfeed]
      exact Nat.add_comm _ 1
    · rw [takeBytes?_inside hpos hk] at hs
      cases hs

/-! ## The order of positions -/

/-- The offsets between the characters of a text and at its ends. -/
def boundaries (t : Text) : Set Nat :=
  {offset | (takeBytes? t offset).isSome = true}

/-- Positions in the order of their lines, and in a line in the order of their columns. -/
def positionKey (p : Position) : Nat ×ₗ Nat :=
  toLex (p.line, p.column)

theorem afterLast_append_of_not_mem {s mid : Text} (hmid : '\n' ∉ mid) :
    afterLast (· = '\n') (s ++ mid) = afterLast (· = '\n') s ++ mid := by
  obtain ⟨lines, hlines, hlast, hfree⟩ := exists_eq_append_afterLast (· = '\n') s
  conv_lhs => rw [hlines, List.append_assoc]
  refine afterLast_append hlast fun c hc => ?_
  rcases List.mem_append.mp hc with hc | hc
  · exact hfree c hc
  · exact decide_eq_false fun heq => hmid (heq ▸ hc)

theorem positionKey_lt_of_append (before : Text) {mid : Text} (hmid : mid ≠ []) (after : Text) :
    positionKey (position (before ++ (mid ++ after)) (bytes before))
      < positionKey (position (before ++ mid ++ after) (bytes (before ++ mid))) := by
  rw [position_boundary, position_boundary, List.count_append, positionKey, positionKey,
    Prod.Lex.toLex_lt_toLex]
  by_cases hfeed : '\n' ∈ mid
  · have hcount := List.count_pos_iff.mpr hfeed
    exact .inl (by simp only; omega)
  · have hlength := List.length_pos_iff.mpr hmid
    rw [List.count_eq_zero_of_not_mem hfeed, afterLast_append_of_not_mem hfeed, List.length_append]
    exact .inr ⟨by simp, by simp only; omega⟩

theorem strictMonoOn_position (t : Text) :
    StrictMonoOn (fun offset => positionKey (position t offset)) (boundaries t) := by
  intro m hm n hn hlt
  obtain ⟨before, hbefore⟩ := Option.isSome_iff_exists.mp hm
  obtain ⟨longer, hlonger⟩ := Option.isSome_iff_exists.mp hn
  obtain ⟨after, rfl, rfl⟩ := takeBytes?_eq_some_iff.mp hbefore
  obtain ⟨rest, htext, rfl⟩ := takeBytes?_eq_some_iff.mp hlonger
  rcases List.append_eq_append_iff.mp htext with ⟨mid, rfl, rfl⟩ | ⟨mid, rfl, _⟩
  · have hmid : mid ≠ [] := by
      rintro rfl
      simp at hlt
    simpa only [List.append_assoc] using positionKey_lt_of_append before hmid rest
  · rw [bytes_append] at hlt
    omega

theorem injOn_position (t : Text) : Set.InjOn (position t) (boundaries t) := by
  intro m hm n hn heq
  exact (strictMonoOn_position t).injOn hm hn (congrArg positionKey heq)

/-! ## Lines -/

/-- The pieces of a text between its line feeds. -/
structure IsLines (t : Text) (lines : List Text) : Prop where
  ne_nil : lines ≠ []
  joined : ['\n'].intercalate lines = t
  noFeed : ∀ piece ∈ lines, '\n' ∉ piece

/-- A text and what it is without all carriage returns at its end. -/
structure IsWithoutReturns (t s : Text) : Prop where
  returns : ∃ k, t = s ++ List.replicate k '\r'
  noReturn : s.getLast? ≠ some '\r'

theorem isLines_splitOn (t : Text) : IsLines t (splitOn '\n' t) where
  ne_nil := splitWhere_ne_nil _ t
  joined := by rw [splitOn_eq_splitOn, List.intercalate_splitOn]
  noFeed := by
    intro piece hpiece hmem
    obtain ⟨_, hfalse⟩ := mem_iff_of_splitWhere.mp ⟨piece, hpiece, hmem⟩
    simp at hfalse

theorem isWithoutReturns_dropReturns (t : Text) : IsWithoutReturns t (dropReturns t) where
  returns := by
    have hall : ∀ c ∈ t.reverse.takeWhile (· = '\r'), c = '\r' := fun c hc => by
      simpa using List.mem_takeWhile_imp hc
    have hreplicate := List.eq_replicate_of_mem hall
    refine ⟨(t.reverse.takeWhile (· = '\r')).length, ?_⟩
    calc t = (t.reverse.takeWhile (· = '\r') ++ t.reverse.dropWhile (· = '\r')).reverse := by
          rw [List.takeWhile_append_dropWhile, List.reverse_reverse]
      _ = dropReturns t ++ (t.reverse.takeWhile (· = '\r')).reverse := by
          rw [List.reverse_append, dropReturns]
      _ = dropReturns t ++ List.replicate _ '\r' := by
          rw [hreplicate, List.reverse_replicate, List.length_replicate]
  noReturn := by
    intro hlast
    rw [dropReturns, List.getLast?_reverse] at hlast
    exact absurd (eq_false_of_head?_dropWhile hlast) (by decide)

end KeyLint.Text
