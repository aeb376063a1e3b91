import Mathlib.Data.List.Basic
import KeyLint.Proofs.Text
import KeyLint.Text.Lines

/-!
# Characters in their lines

A character of a text stands in one of its lines, and its position tells which and where: the line
with the position's number holds the character at the position's column. Only what ends a line is
in no line.
-/

namespace KeyLint

/-- The position after a character at a position. -/
def Position.after (here : Position) (c : Char) : Position :=
  if c = '\n' then ⟨here.line + 1, 1⟩ else ⟨here.line, here.column + 1⟩

namespace Text

/-! ## Positions -/

theorem advance_append (here : Position) (s t : Text) :
    advance here (s ++ t) (bytes s) = s.foldl Position.after here := by
  induction s generalizing here with
  | nil => cases t <;> rfl
  | cons c s ih =>
      obtain ⟨n, hn⟩ : ∃ n, c.utf8Size + bytes s = n + 1 :=
        Nat.exists_eq_succ_of_ne_zero (Nat.ne_of_gt (Nat.add_pos_left c.utf8Size_pos _))
      rw [List.cons_append, bytes_cons, hn, advance, if_pos (by omega),
        show n + 1 - c.utf8Size = bytes s by omega]
      exact ih (here.after c)

theorem line_foldl_after (here : Position) (s : Text) :
    (s.foldl Position.after here).line = here.line + s.count '\n' := by
  induction s generalizing here with
  | nil => rfl
  | cons c s ih =>
      rw [List.foldl_cons, ih, List.count_cons]
      by_cases hc : c = '\n'
      · simp [Position.after, hc]
        omega
      · simp [Position.after, hc]

theorem foldl_after_of_not_mem {s : Text} (hs : '\n' ∉ s) (here : Position) :
    s.foldl Position.after here = ⟨here.line, here.column + s.length⟩ := by
  induction s generalizing here with
  | nil => rfl
  | cons c s ih =>
      have hc : c ≠ '\n' := fun h => hs (h ▸ List.mem_cons_self)
      rw [List.foldl_cons, ih fun h => hs (List.mem_cons_of_mem c h), Position.after, if_neg hc,
        List.length_cons, Nat.add_assoc, Nat.add_comm 1]

/-- What follows a text begins a line: nothing or a line feed stands before it. -/
def BeginsLine (before : Text) : Prop :=
  before = [] ∨ ∃ s, before = s ++ ['\n']

theorem exists_beginsLine (before : Text) :
    ∃ lines start, before = lines ++ start ∧ BeginsLine lines ∧ '\n' ∉ start := by
  obtain ⟨pieces, start, hsplit⟩ :=
    (List.eq_nil_or_concat' (splitOn '\n' before)).resolve_left (splitWhere_ne_nil _ _)
  obtain ⟨hfree, hbefore⟩ := of_splitWhere_eq_concat hsplit
  have hstart : '\n' ∉ start := fun h => by simpa using hfree _ h
  rcases hbefore with ⟨_, rfl⟩ | ⟨s, d, hd, rfl, _⟩
  · exact ⟨[], before, rfl, .inl rfl, hstart⟩
  · obtain rfl := of_decide_eq_true hd
    exact ⟨s ++ ['\n'], start, by simp, .inr ⟨s, rfl⟩, hstart⟩

theorem position_of_beginsLine {lines start : Text} (hlines : BeginsLine lines)
    (hstart : '\n' ∉ start) (t : Text) :
    position (lines ++ start ++ t) (bytes (lines ++ start))
      = ⟨lines.count '\n' + 1, start.length + 1⟩ := by
  rw [position, advance_append, List.foldl_append, foldl_after_of_not_mem hstart]
  rcases hlines with rfl | ⟨s, rfl⟩
  · simp [Nat.add_comm]
  · have hline := line_foldl_after ⟨1, 1⟩ s
    rw [List.foldl_append, List.foldl_cons, List.foldl_nil, Position.after, if_pos rfl, hline,
      List.count_append, List.count_singleton_self]
    simp [Nat.add_comm]

/-! ## Lines -/

theorem length_splitWhere (p : Char → Bool) (t : Text) :
    (splitWhere p t).length = t.countP p + 1 := by
  induction t with
  | nil => rfl
  | cons c t ih =>
      obtain ⟨piece, pieces, ht⟩ := List.exists_cons_of_ne_nil (splitWhere_ne_nil p t)
      rw [ht, List.length_cons] at ih
      by_cases hc : p c = true
      · simp [splitWhere, hc, ht, ih]
      · simp [splitWhere, hc, ht, ih]

theorem splitOn_getElem?_of_beginsLine {lines : Text} (hlines : BeginsLine lines) (t : Text) :
    (splitOn '\n' (lines ++ t))[lines.count '\n']? = (splitOn '\n' t).head? := by
  rcases hlines with rfl | ⟨s, rfl⟩
  · exact List.head?_eq_getElem?.symm
  · have hlength : (splitOn '\n' s).length = (s ++ ['\n']).count '\n' := by
      rw [splitOn, length_splitWhere, List.count_append, List.count_singleton_self, List.count]
      rfl
    rw [List.append_assoc, List.singleton_append, splitOn,
      splitWhere_append_cons (decide_eq_true rfl), ← splitOn, ← splitOn,
      List.getElem?_append_right (Nat.le_of_eq hlength), hlength, Nat.sub_self,
      List.head?_eq_getElem?]

theorem dropReturns_append_cons {c : Char} (hc : c ≠ '\r') (s t : Text) :
    dropReturns (s ++ c :: t) = s ++ c :: dropReturns t := by
  have hstop : (c :: s.reverse).dropWhile (· = '\r') = c :: s.reverse :=
    List.dropWhile_cons_of_neg (by simpa using hc)
  have hreverse : (s ++ c :: t).reverse = t.reverse ++ c :: s.reverse := by simp
  rw [dropReturns, hreverse, List.dropWhile_append, hstop]
  split
  · next hempty => simp [dropReturns, List.isEmpty_iff.mp hempty]
  · simp [dropReturns]

theorem dropReturns_isPrefix (t : Text) : dropReturns t <+: t := by
  rw [← List.reverse_suffix, dropReturns, List.reverse_reverse]
  exact List.dropWhile_suffix _

/-- A character that does not end a line stands in the line of its position at the column of its
position, and is followed there by what follows it in the text. -/
theorem exists_line {c : Char} (hfeed : c ≠ '\n') (hreturn : c ≠ '\r') (before after : Text) :
    ∃ start rest,
      (position (before ++ c :: after) (bytes before)).column = start.length + 1 ∧
      line (before ++ c :: after) (position (before ++ c :: after) (bytes before)).line
        = start ++ c :: rest ∧
      '\n' ∉ start ++ c :: rest ∧ rest <+: after := by
  obtain ⟨lines, start, rfl, hlines, hstart⟩ := exists_beginsLine before
  obtain ⟨first, pieces, hsplit⟩ :=
    List.exists_cons_of_ne_nil (splitWhere_ne_nil (· = '\n') after)
  obtain ⟨hfirst, hafter⟩ := of_splitWhere_eq_cons hsplit
  have hpre : first <+: after := by
    rcases hafter with ⟨_, rfl⟩ | ⟨d, rest, _, rfl, _⟩
    · exact List.prefix_refl _
    · exact List.prefix_append _ _
  -- The line is what stands before the character since the last line feed, the character, and
  -- what follows it up to the next line feed.
  have hfree : ∀ x ∈ start ++ [c], decide (x = '\n') = false := by
    intro x hx
    rcases List.mem_append.mp hx with hx | hx
    · exact decide_eq_false fun h => hstart (h ▸ hx)
    · exact decide_eq_false (List.mem_singleton.mp hx ▸ hfeed)
  have hpieces : splitOn '\n' (start ++ [c] ++ after) = (start ++ [c] ++ first) :: pieces :=
    splitWhere_append hfree hsplit
  have hline : line (lines ++ start ++ c :: after) (lines.count '\n' + 1)
      = start ++ c :: dropReturns first := by
    have htext : lines ++ start ++ c :: after = lines ++ (start ++ [c] ++ after) := by simp
    rw [line, htext, splitOn_getElem?_of_beginsLine hlines, hpieces, List.head?_cons,
      Option.getD_some, List.append_assoc, List.singleton_append, dropReturns_append_cons hreturn]
  refine ⟨start, dropReturns first, ?_, ?_, ?_, (dropReturns_isPrefix first).trans hpre⟩
  · rw [position_of_beginsLine hlines hstart]
  · rw [position_of_beginsLine hlines hstart, hline]
  · intro hmem
    rcases List.mem_append.mp hmem with hmem | hmem
    · exact hstart hmem
    · rcases List.mem_cons.mp hmem with rfl | hmem
      · exact hfeed rfl
      · simpa using hfirst _ ((dropReturns_isPrefix first).subset hmem)

end Text

end KeyLint
