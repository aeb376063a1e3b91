import KeyLint.Proofs.Positions

/-!
# Lines by a table of offsets

The offsets at which lines begin are collected once, from the bytes of a text. The line of an offset
is then searched in this table, and its column and the text of its line are cut out by offsets. The
search never comes before the first line, and it finds the positions and lines that following the
characters gives.
-/

namespace KeyLint.Cursor

/-! ## The table -/

/-- The offsets behind line feeds, for bytes of which the first has the given offset. -/
def behindFeeds (offset : Nat) : Octets → List Nat
  | [] => []
  | b :: bs =>
    if b = '\n' then (offset + 1) :: behindFeeds (offset + 1) bs else behindFeeds (offset + 1) bs

/-- The offsets at which lines begin. -/
def lineStarts (bs : Octets) : List Nat :=
  0 :: behindFeeds 0 bs

/-- The place of a number in a sorted list, or else the place where it would have to be put. -/
def search (xs : List Nat) (x : Nat) : Nat ⊕ Nat :=
  let place := (xs.takeWhile (· < x)).length
  if xs[place]? = some x then .inl place else .inr place

/-- The number at a place of a list. -/
def entryAt (xs : List Nat) (i : Nat) : Checked Nat :=
  match xs[i]? with
  | some x => .ok x
  | none => .error (.fault .index)

/-- The place in the table of the line that holds an offset. -/
def lineAt (starts : List Nat) (offset : Nat) : Checked Nat :=
  match search starts offset with
  | .inl place => pure place
  | .inr place => minus place 1

/-- The position of an offset by the table. -/
def position (t : Text) (offset : Nat) : Checked Position := do
  let offset := min offset (Text.bytes t)
  let starts := lineStarts (utf8 t)
  let line ← lineAt starts offset
  let start ← entryAt starts line
  pure ⟨line + 1, ((Text.slice? t ⟨start, offset⟩).getD []).length + 1⟩

/-- A text without the line feeds and carriage returns at its end. -/
def dropLineEnd (t : Text) : Text :=
  (t.reverse.dropWhile fun c => c = '\n' || c = '\r').reverse

/-- What a line says by the table; nothing if there is no such line. -/
def line (t : Text) (number : Nat) : Text :=
  let starts := lineStarts (utf8 t)
  match starts[number - 1]? with
  | none => []
  | some start =>
    let stop := starts[number]?.getD (Text.bytes t)
    dropLineEnd ((Text.slice? t ⟨start, stop⟩).getD [])

theorem behindFeeds_append (offset : Nat) (s t : Octets) :
    behindFeeds offset (s ++ t) = behindFeeds offset s ++ behindFeeds (offset + s.length) t := by
  induction s generalizing offset with
  | nil => rfl
  | cons b s ih =>
      have hoffset : offset + 1 + s.length = offset + (b :: s).length := by
        rw [List.length_cons]
        omega
      by_cases hb : b = '\n'
      · simp [behindFeeds, hb, ih, hoffset]
      · simp [behindFeeds, hb, ih, hoffset]

theorem behindFeeds_add (offset shift : Nat) (bs : Octets) :
    behindFeeds (shift + offset) bs = (behindFeeds offset bs).map (shift + ·) := by
  induction bs generalizing offset with
  | nil => rfl
  | cons b bs ih =>
      by_cases hb : b = '\n'
      · simp [behindFeeds, hb, Nat.add_assoc, ih]
      · simp [behindFeeds, hb, Nat.add_assoc, ih]

theorem behindFeeds_of_not_mem {bs : Octets} (h : '\n' ∉ bs) (offset : Nat) :
    behindFeeds offset bs = [] := by
  induction bs generalizing offset with
  | nil => rfl
  | cons b bs ih =>
      obtain ⟨hb, hbs⟩ := not_or.mp (List.mem_cons.not.mp h)
      rw [behindFeeds, if_neg (Ne.symm hb), ih hbs]

theorem length_behindFeeds (offset : Nat) (bs : Octets) :
    (behindFeeds offset bs).length = bs.count '\n' := by
  induction bs generalizing offset with
  | nil => rfl
  | cons b bs ih =>
      by_cases hb : b = '\n'
      · simp [behindFeeds, hb, ih]
      · simp [behindFeeds, hb, ih]

theorem bounds_of_mem_behindFeeds {offset x : Nat} {bs : Octets} (h : x ∈ behindFeeds offset bs) :
    offset < x ∧ x ≤ offset + bs.length := by
  induction bs generalizing offset with
  | nil => cases h
  | cons b bs ih =>
      have htail : x ∈ behindFeeds (offset + 1) bs → offset < x ∧ x ≤ offset + (bs.length + 1) := by
        intro hx
        have hbounds := ih hx
        omega
      rw [behindFeeds] at h
      split at h
      · rcases List.mem_cons.mp h with rfl | hx
        · rw [List.length_cons]
          omega
        · exact htail hx
      · exact htail h

/-! ## Searching the table -/

theorem search_append {xs ys : List Nat} {x start : Nat} (hxs : ∀ y ∈ xs, y < start)
    (hstart : start ≤ x) (hys : ∀ y ∈ ys, x < y) :
    search (xs ++ start :: ys) x = if start = x then .inl xs.length else .inr (xs.length + 1) := by
  have hbefore : ∀ y ∈ xs, decide (y < x) = true := fun y hy =>
    decide_eq_true (Nat.lt_of_lt_of_le (hxs y hy) hstart)
  rcases Nat.eq_or_lt_of_le hstart with rfl | hlt
  · have htake : (xs ++ start :: ys).takeWhile (· < start) = xs := by
      rw [List.takeWhile_append_of_pos hbefore, List.takeWhile_cons_of_neg (by simp),
        List.append_nil]
    simp [search, htake]
  · have hafter : ys.takeWhile (· < x) = [] := by
      cases ys with
      | nil => rfl
      | cons y ys =>
          have hy := hys y List.mem_cons_self
          exact List.takeWhile_cons_of_neg (by simpa using hy.le)
    have htake : (xs ++ start :: ys).takeWhile (· < x) = xs ++ [start] := by
      rw [List.takeWhile_append_of_pos hbefore, List.takeWhile_cons_of_pos (by simpa using hlt),
        hafter]
    have hnext : (xs ++ start :: ys)[xs.length + 1]? ≠ some x := by
      rw [List.getElem?_append_right (Nat.le_succ _), Nat.succ_sub Nat.le.refl, Nat.sub_self,
        List.getElem?_cons_succ]
      exact fun hget => Nat.lt_irrefl x (hys x (List.mem_of_getElem? hget))
    simp [search, htake, hnext, Nat.ne_of_lt hlt]

/-- The table of a text that goes on with a line at `lines`: the starts of the earlier lines, the start
of this one, and the starts of the lines after the place up to which it has no line feed. -/
theorem lineStarts_of_beginsLine {lines : Text} (hlines : Text.BeginsLine lines) {mid : Octets}
    (hmid : '\n' ∉ mid) (rest : Octets) :
    ∃ xs ys, lineStarts (utf8 lines ++ mid ++ rest) = xs ++ Text.bytes lines :: ys ∧
      xs.length = lines.count '\n' ∧ (∀ x ∈ xs, x < Text.bytes lines) ∧
      ∀ y ∈ ys, Text.bytes lines + mid.length < y := by
  have hys : ∀ y ∈ behindFeeds (Text.bytes lines + mid.length) rest,
      Text.bytes lines + mid.length < y := fun y hy => (bounds_of_mem_behindFeeds hy).1
  have htable : lineStarts (utf8 lines ++ mid ++ rest)
      = 0 :: behindFeeds 0 (utf8 lines) ++ behindFeeds (Text.bytes lines + mid.length) rest := by
    rw [lineStarts, behindFeeds_append, behindFeeds_append, behindFeeds_of_not_mem hmid,
      List.append_nil, List.length_append, length_utf8, Nat.zero_add]
    rfl
  rcases hlines with rfl | ⟨s, rfl⟩
  · exact ⟨[], _, htable, rfl, by simp, hys⟩
  · have hfeed : utf8 ['\n'] = ['\n'] := by decide
    have hlast : behindFeeds 0 (utf8 (s ++ ['\n']))
        = behindFeeds 0 (utf8 s) ++ [Text.bytes (s ++ ['\n'])] := by
      rw [utf8_append, behindFeeds_append, hfeed, length_utf8, Nat.zero_add,
        bytes_append_singleton s Text.isAscii_feed]
      rfl
    refine ⟨0 :: behindFeeds 0 (utf8 s), _, ?_, ?_, ?_, hys⟩
    · rw [htable, hlast, List.cons_append, List.cons_append, List.append_assoc]
      rfl
    · rw [List.length_cons, length_behindFeeds, Text.count_utf8, List.count_append,
        List.count_singleton_self]
    · intro x hx
      rw [bytes_append_singleton s Text.isAscii_feed]
      rcases List.mem_cons.mp hx with rfl | hx
      · omega
      · have hbounds := bounds_of_mem_behindFeeds hx
        rw [length_utf8] at hbounds
        omega

/-! ## Positions -/

/-- The line of an offset and the start of that line, as the search finds them. -/
theorem position_eq_of_utf8 {t lines : Text} (hlines : Text.BeginsLine lines) {mid rest : Octets}
    (hmid : '\n' ∉ mid) (ht : utf8 t = utf8 lines ++ mid ++ rest) :
    position t (Text.bytes lines + mid.length)
      = .ok ⟨lines.count '\n' + 1, ((Text.slice? t
          ⟨Text.bytes lines, Text.bytes lines + mid.length⟩).getD []).length + 1⟩ := by
  obtain ⟨xs, ys, htable, hlength, hxs, hys⟩ := lineStarts_of_beginsLine hlines hmid rest
  have hbytes : Text.bytes lines + mid.length ≤ Text.bytes t := by
    rw [← length_utf8 t, ht, List.length_append, List.length_append, length_utf8]
    omega
  have hentry : entryAt (xs ++ Text.bytes lines :: ys) xs.length = .ok (Text.bytes lines) := by
    rw [entryAt, List.getElem?_append_right Nat.le.refl, Nat.sub_self]
    rfl
  have hline : lineAt (xs ++ Text.bytes lines :: ys) (Text.bytes lines + mid.length)
      = .ok xs.length := by
    rw [lineAt, search_append hxs (Nat.le_add_right _ _) hys]
    split_ifs
    · rfl
    · exact if_pos (Nat.le_add_left 1 _)
  rw [position, Nat.min_eq_left hbytes, ht, htable]
  simp only [hline, hentry, ok_bind, pure_eq_ok]
  rw [hlength]

theorem position_boundary (before after : Text) :
    position (before ++ after) (Text.bytes before)
      = .ok (Text.position (before ++ after) (Text.bytes before)) := by
  obtain ⟨lines, start, rfl, hlines, hstart⟩ := Text.exists_beginsLine before
  have hmid : '\n' ∉ utf8 start := by
    rwa [← List.count_eq_zero, Text.count_utf8, List.count_eq_zero]
  have hutf8 : utf8 (lines ++ start ++ after) = utf8 lines ++ utf8 start ++ utf8 after := by
    rw [utf8_append, utf8_append]
  rw [Text.position_of_beginsLine hlines hstart, Text.bytes_append, ← length_utf8 start,
    position_eq_of_utf8 hlines hmid hutf8, length_utf8, Text.slice?_append]
  rfl

theorem slice?_inside (lines start after : Text) {c : Char} {k : Nat} (hpos : 0 < k)
    (hk : k < c.utf8Size) :
    Text.slice? (lines ++ start ++ c :: after)
      ⟨Text.bytes lines, Text.bytes lines + (Text.bytes start + k)⟩ = none := by
  rw [Text.slice?, List.append_assoc, Text.dropBytes?_append, Option.bind_some,
    Nat.add_sub_cancel_left, Text.takeBytes?_inside hpos hk]

theorem position_inside (before after : Text) {c : Char} {k : Nat} (hpos : 0 < k)
    (hk : k < c.utf8Size) :
    position (before ++ c :: after) (Text.bytes before + k)
      = .ok (Text.position (before ++ c :: after) (Text.bytes before + k)) := by
  rw [Text.position_inside before after hpos hk]
  obtain ⟨lines, start, rfl, hlines, hstart⟩ := Text.exists_beginsLine before
  have hmid : '\n' ∉ utf8 start ++ (octets c).take k := by
    intro hmem
    rcases List.mem_append.mp hmem with hmem | hmem
    · rw [← List.count_pos_iff, Text.count_utf8, List.count_pos_iff] at hmem
      exact hstart hmem
    · exact not_isAscii_of_mem_octets (Text.not_isAscii_of_inside hpos hk)
        (List.mem_of_mem_take hmem) Text.isAscii_feed
  have hutf8 : utf8 (lines ++ start ++ c :: after)
      = utf8 lines ++ (utf8 start ++ (octets c).take k) ++ ((octets c).drop k ++ utf8 after) := by
    simp only [utf8_append, utf8_cons, List.append_assoc]
    rw [← List.append_assoc ((octets c).take k), List.take_append_drop]
  have hlength : (utf8 start ++ (octets c).take k).length = Text.bytes start + k := by
    rw [List.length_append, length_utf8, List.length_take, length_octets, Nat.min_eq_left hk.le]
  have hread := position_eq_of_utf8 hlines hmid hutf8
  rw [hlength, slice?_inside lines start after hpos hk] at hread
  rw [Text.bytes_append, Nat.add_assoc, hread, List.count_append,
    List.count_eq_zero_of_not_mem hstart]
  rfl

theorem position_eq (t : Text) (offset : Nat) : position t offset = .ok (Text.position t offset) := by
  have hmin : position t offset = position t (min offset (Text.bytes t)) := by
    rw [position, position, Nat.min_assoc, Nat.min_self]
  rw [hmin, ← Text.position_min]
  rcases Text.offset_cases (Nat.min_le_right offset (Text.bytes t)) with
    ⟨before, after, rfl, hoffset⟩ | ⟨before, c, after, k, rfl, hoffset, hpos, hk⟩
  · rw [hoffset]
    exact position_boundary before after
  · rw [hoffset]
    exact position_inside before after hpos hk

/-! ## Lines -/

theorem dropBytes?_append_add (s t : Text) (n : Nat) :
    Text.dropBytes? (s ++ t) (Text.bytes s + n) = Text.dropBytes? t n := by
  induction s with
  | nil => rw [List.nil_append, Text.bytes_nil, Nat.zero_add]
  | cons c s ih =>
      have hpos := c.utf8Size_pos
      obtain ⟨m, hm⟩ : ∃ m, Text.bytes (c :: s) + n = m + 1 :=
        Nat.exists_eq_succ_of_ne_zero (by rw [Text.bytes_cons]; omega)
      have hsize := hm
      rw [Text.bytes_cons] at hsize
      rw [List.cons_append, hm, Text.dropBytes?, if_pos (by omega),
        show m + 1 - c.utf8Size = Text.bytes s + n by omega]
      exact ih

theorem slice?_append_add (s t : Text) (start stop : Nat) :
    Text.slice? (s ++ t) ⟨Text.bytes s + start, Text.bytes s + stop⟩ = Text.slice? t ⟨start, stop⟩ := by
  rw [Text.slice?, dropBytes?_append_add, Nat.add_sub_add_left, Text.slice?]

theorem dropLineEnd_of_not_mem {piece : Text} (h : '\n' ∉ piece) :
    dropLineEnd piece = Text.dropReturns piece := by
  have hdrop : ∀ t : Text, '\n' ∉ t →
      t.dropWhile (fun c => c = '\n' || c = '\r') = t.dropWhile (· = '\r') := by
    intro t ht
    induction t with
    | nil => rfl
    | cons c t ih =>
        obtain ⟨hc, ht⟩ := not_or.mp (List.mem_cons.not.mp ht)
        simp [List.dropWhile_cons, Ne.symm hc, ih ht]
  rw [dropLineEnd, hdrop _ (by simpa using h), Text.dropReturns]

theorem dropLineEnd_append_feed (t : Text) : dropLineEnd (t ++ ['\n']) = dropLineEnd t := by
  simp [dropLineEnd]

theorem lineStarts_of_not_mem {piece : Text} (h : '\n' ∉ piece) : lineStarts (utf8 piece) = [0] := by
  have hfree : '\n' ∉ utf8 piece := by
    rwa [← List.count_eq_zero, Text.count_utf8, List.count_eq_zero]
  rw [lineStarts, behindFeeds_of_not_mem hfree]

theorem lineStarts_append_feed {piece : Text} (h : '\n' ∉ piece) (rest : Text) :
    lineStarts (utf8 (piece ++ '\n' :: rest))
      = 0 :: (lineStarts (utf8 rest)).map (Text.bytes (piece ++ ['\n']) + ·) := by
  have hfree : '\n' ∉ utf8 piece := by
    rwa [← List.count_eq_zero, Text.count_utf8, List.count_eq_zero]
  have hfeed : utf8 ('\n' :: rest) = '\n' :: utf8 rest := by
    rw [utf8_cons, octets_of_isAscii Text.isAscii_feed, List.singleton_append]
  rw [lineStarts, lineStarts, utf8_append, hfeed, behindFeeds_append, behindFeeds_of_not_mem hfree,
    List.nil_append, behindFeeds, if_pos rfl, length_utf8, Nat.zero_add,
    ← bytes_append_singleton piece Text.isAscii_feed, List.map_cons, Nat.add_zero]
  exact congrArg (fun xs => 0 :: Text.bytes (piece ++ ['\n']) :: xs)
    (behindFeeds_add 0 (Text.bytes (piece ++ ['\n'])) (utf8 rest))

/-- The lines behind the first one are the lines of the text behind the first line feed. -/
theorem line_append_feed {piece : Text} (h : '\n' ∉ piece) (rest : Text) (n : Nat) :
    line (piece ++ '\n' :: rest) (n + 2) = line rest (n + 1) := by
  have hentry : ∀ k, (lineStarts (utf8 (piece ++ '\n' :: rest)))[k + 1]?
      = (lineStarts (utf8 rest))[k]?.map (Text.bytes (piece ++ ['\n']) + ·) := by
    intro k
    rw [lineStarts_append_feed h, List.getElem?_cons_succ, List.getElem?_map]
  have htext : piece ++ '\n' :: rest = (piece ++ ['\n']) ++ rest := by
    rw [List.append_assoc, List.singleton_append]
  rw [line, line, show n + 2 - 1 = n + 1 from rfl, hentry, hentry, Nat.add_sub_cancel]
  cases (lineStarts (utf8 rest))[n]? with
  | none => rfl
  | some start =>
      have hstop : ((lineStarts (utf8 rest))[n + 1]?.map (Text.bytes (piece ++ ['\n']) + ·)).getD
          (Text.bytes (piece ++ '\n' :: rest))
            = Text.bytes (piece ++ ['\n'])
              + (lineStarts (utf8 rest))[n + 1]?.getD (Text.bytes rest) := by
        cases (lineStarts (utf8 rest))[n + 1]? with
        | none => exact (congrArg Text.bytes htext).trans (Text.bytes_append _ rest)
        | some stop => rfl
      simp only [Option.map_some, hstop]
      rw [htext, slice?_append_add]

theorem line_eq_of_not_mem {piece : Text} (h : '\n' ∉ piece) (n : Nat) :
    line piece (n + 1) = Text.line piece (n + 1) := by
  have hwhole : Text.slice? piece ⟨0, Text.bytes piece⟩ = some piece := by
    simpa using Text.slice?_append [] piece []
  have hsplit : Text.splitOn '\n' piece = [piece] :=
    Text.splitWhere_eq_singleton fun c hc => decide_eq_false fun heq => h (heq ▸ hc)
  rw [line, Text.line, lineStarts_of_not_mem h, hsplit, Nat.add_sub_cancel]
  cases n with
  | zero => simp [hwhole, dropLineEnd_of_not_mem h]
  | succ n => rfl

theorem first_line_append_feed {piece : Text} (h : '\n' ∉ piece) (rest : Text) :
    line (piece ++ '\n' :: rest) 1 = Text.dropReturns piece := by
  have hslice : Text.slice? (piece ++ '\n' :: rest) ⟨0, Text.bytes (piece ++ ['\n'])⟩
      = some (piece ++ ['\n']) := by
    simpa using Text.slice?_append [] (piece ++ ['\n']) rest
  have hstart : (lineStarts (utf8 (piece ++ '\n' :: rest)))[1 - 1]? = some 0 := by
    rw [lineStarts_append_feed h]
    rfl
  have hstop : (lineStarts (utf8 (piece ++ '\n' :: rest)))[1]?
      = some (Text.bytes (piece ++ ['\n'])) := by
    rw [lineStarts_append_feed h]
    rfl
  rw [line, hstart, hstop]
  simp only [Option.getD_some, hslice]
  rw [dropLineEnd_append_feed, dropLineEnd_of_not_mem h]

theorem splitOn_append_feed {piece : Text} (h : '\n' ∉ piece) (rest : Text) :
    Text.splitOn '\n' (piece ++ '\n' :: rest) = piece :: Text.splitOn '\n' rest := by
  have hpiece : Text.splitWhere (· = '\n') piece = [piece] :=
    Text.splitWhere_eq_singleton fun c hc => decide_eq_false fun heq => h (heq ▸ hc)
  rw [Text.splitOn, Text.splitWhere_append_cons (by decide), hpiece]
  rfl

theorem line_succ (t : Text) (n : Nat) : line t (n + 1) = Text.line t (n + 1) := by
  by_cases hmem : '\n' ∈ t
  · obtain ⟨piece, rest, rfl, hpiece⟩ := List.eq_append_cons_of_mem hmem
    have hsplit := splitOn_append_feed hpiece rest
    cases n with
    | zero =>
        rw [first_line_append_feed hpiece, Text.line, hsplit]
        rfl
    | succ n =>
        rw [line_append_feed hpiece, line_succ rest n, Text.line, Text.line, hsplit,
          List.getElem?_cons_succ]
  · exact line_eq_of_not_mem hmem n

theorem line_eq (t : Text) (number : Nat) : line t number = Text.line t number := by
  cases number with
  | zero =>
      have hnone : Text.slice? t ⟨0, 0⟩ = some [] := by
        simpa using Text.slice?_append [] [] t
      simp [line, lineStarts, hnone, dropLineEnd, Text.line]
  | succ n => exact line_succ t n

/-! ## The law -/

open Text (IsPlaced IsLines IsWithoutReturns boundaries positionKey)

/-- The position of an offset, at most the length of the text, counts the line feeds before it and the
characters since the last of them. Between characters, different offsets have different positions, in
the same order. A line says what stands between two line feeds without the carriage returns at its
end. The table of line starts gives the same positions, without a fault, and the same lines. -/
theorem positions_and_lines_exact (t : Text) :
    (∀ offset, IsPlaced t (min offset (Text.bytes t)) (Text.position t offset)) ∧
      Set.InjOn (Text.position t) (boundaries t) ∧
      StrictMonoOn (fun offset => positionKey (Text.position t offset)) (boundaries t) ∧
      (∃ lines, IsLines t lines ∧ ∀ n,
        (∀ piece, lines[n]? = some piece → IsWithoutReturns piece (Text.line t (n + 1))) ∧
          (lines[n]? = none → Text.line t (n + 1) = [])) ∧
      (∀ offset, position t offset = .ok (Text.position t offset)) ∧
      ∀ number, line t number = Text.line t number := by
  refine ⟨fun offset => ?_, Text.injOn_position t, Text.strictMonoOn_position t,
    ⟨Text.splitOn '\n' t, Text.isLines_splitOn t, fun n => ⟨fun piece hpiece => ?_, fun hnone => ?_⟩⟩,
    position_eq t, line_eq t⟩
  · rw [← Text.position_min]
    exact Text.isPlaced_position (Nat.min_le_right _ _)
  · rw [Text.line, hpiece]
    exact Text.isWithoutReturns_dropReturns piece
  · rw [Text.line, hnone]
    rfl

end KeyLint.Cursor
