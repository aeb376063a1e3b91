import KeyLint.Proofs.Expression.Scanning

/-!
# The operands of the translation pipe

The keys that are found in the text of a tree are those that the tree says are translated. Operands
overlap, since groups nest: a key is found once for every operand that it is in. All of them see the
same quoted keys, so that sorting by place leaves each key once.
-/

namespace KeyLint.Expression

/-! ## Keys in stretches -/

theorem quotedKeys_middle {x t : Text} (hx : Settled x) (ht : Settled t) (u : Text) :
    quotedKeys x.length t = (quotedKeys 0 (x ++ (t ++ u))).filter
      fun k => Stretch.has ⟨x.length, x.length + t.length⟩ k.place := by
  have hbefore : (quotedKeys 0 x).filter
      (fun k => Stretch.has ⟨x.length, x.length + t.length⟩ k.place) = [] := by
    rw [List.filter_eq_nil_iff]
    intro k hk
    have hplace := place_of_mem_quotedKeys k hk
    simp only [Stretch.has, Bool.and_eq_true, decide_eq_true_eq]
    omega
  have hinside : (quotedKeys x.length t).filter
      (fun k => Stretch.has ⟨x.length, x.length + t.length⟩ k.place) = quotedKeys x.length t := by
    rw [List.filter_eq_self]
    intro k hk
    have hplace := place_of_mem_quotedKeys k hk
    simp [Stretch.has, hplace]
  have hafter : (quotedKeys (x.length + t.length) u).filter
      (fun k => Stretch.has ⟨x.length, x.length + t.length⟩ k.place) = [] := by
    rw [List.filter_eq_nil_iff]
    intro k hk
    have hplace := place_of_mem_quotedKeys k hk
    simp only [Stretch.has, Bool.and_eq_true, decide_eq_true_eq]
    omega
  rw [quotedKeys_append hx, quotedKeys_append ht, List.filter_append, List.filter_append,
    Nat.zero_add, hbefore, hinside, hafter, List.nil_append, List.append_nil]

/-- The quoted keys of a stretch whose ends are between tokens are those of the whole text that lie
in the stretch. -/
theorem quotedKeys_slice {text : Text} {s : Stretch} (h : s.IsSettled text) :
    quotedKeys s.start ((text.take s.stop).drop s.start)
      = (quotedKeys 0 text).filter fun k => s.has k.place := by
  have hle := h.le
  have hlength := h.le_length
  have htake : text.take s.start ++ (text.take s.stop).drop s.start = text.take s.stop := by
    rw [← Nat.min_eq_left hle, ← List.take_take, Nat.min_eq_left hle, List.take_append_drop]
  have hsettled : Settled ((text.take s.stop).drop s.start) := by
    refine Settled.of_append (s := text.take s.start) ?_
    rw [htake]
    exact h.stop
  have hmiddle := quotedKeys_middle h.start hsettled (text.drop s.stop)
  have hstart : (text.take s.start).length = s.start := by
    rw [List.length_take]
    omega
  have hstop : s.start + ((text.take s.stop).drop s.start).length = s.stop := by
    rw [List.length_drop, List.length_take]
    omega
  rw [← List.append_assoc, htake, List.take_append_drop, hstart, hstop] at hmiddle
  exact hmiddle

/-! ## Sorting by place -/

theorem insertKey_of_lt {entry : QuotedKey} {keys : List QuotedKey}
    (h : ∀ k ∈ keys, entry.place < k.place) : insertKey entry keys = entry :: keys := by
  cases keys with
  | nil => rfl
  | cons k keys => rw [insertKey, if_pos (h k List.mem_cons_self)]

/-- Inserting one of the keys that are sorted by place among some of them. -/
theorem insertKey_filter {all : List QuotedKey} (hall : all.Pairwise fun k l => k.place < l.place)
    (p : QuotedKey → Bool) {entry : QuotedKey} (hentry : entry ∈ all) :
    insertKey entry (all.filter p) = all.filter fun k => p k || decide (k = entry) := by
  induction all with
  | nil => cases hentry
  | cons k all ih =>
      obtain ⟨hk, hrest⟩ := List.pairwise_cons.mp hall
      rcases List.mem_cons.mp hentry with rfl | hentry
      -- No other key has the place of the first one, and all others come after it.
      · have hsame : all.filter (fun l => p l || decide (l = entry)) = all.filter p := by
          refine List.filter_congr fun l hl => ?_
          have hne : l ≠ entry := by
            rintro rfl
            exact Nat.lt_irrefl _ (hk _ hl)
          simp [hne]
        by_cases hp : p entry = true
        · simp [hp, hsame, insertKey]
        · have hlt : ∀ l ∈ all.filter p, entry.place < l.place :=
            fun l hl => hk l (List.mem_of_mem_filter hl)
          simp [hp, hsame, insertKey_of_lt hlt]
      · have hlt := hk entry hentry
        have hne : k ≠ entry := by
          rintro rfl
          exact Nat.lt_irrefl _ hlt
        have hnot : ¬ entry.place < k.place := by omega
        by_cases hp : p k = true
        · simp [hp, insertKey, hnot, Nat.ne_of_gt hlt, ih hrest hentry]
        · simp [hp, hne, ih hrest hentry]

theorem foldl_insertKey {all : List QuotedKey} (hall : all.Pairwise fun k l => k.place < l.place)
    (found : List QuotedKey) (hfound : ∀ k ∈ found, k ∈ all) (p : QuotedKey → Bool) :
    found.foldl (fun keys entry => insertKey entry keys) (all.filter p)
      = all.filter fun k => p k || decide (k ∈ found) := by
  induction found generalizing p with
  | nil => simp
  | cons entry found ih =>
      obtain ⟨hentry, hrest⟩ := List.forall_mem_cons.mp hfound
      rw [List.foldl_cons, insertKey_filter hall p hentry, ih hrest]
      simp [Bool.or_assoc]

/-! ## The keys of a tree -/

/-- What is left of the quoted keys are those in some operand and in no arguments, in order. -/
theorem pipedKeys_eq {unit : Text}
    (hoperands : ∀ s ∈ (scanCode {} 0 unit).operands, s.IsSettled unit) :
    pipedKeys unit = ((quotedKeys 0 unit).filter fun k =>
      covers (scanCode {} 0 unit).operands k.place
        && !covers (scanCode {} 0 unit).arguments k.place).map QuotedKey.key := by
  rw [pipedKeys]
  generalize scanCode {} 0 unit = scan at *
  have hfound : ∀ k, k ∈ (scan.operands.flatMap fun s =>
      quotedKeys s.start ((unit.take s.stop).drop s.start)) ↔
      k ∈ quotedKeys 0 unit ∧ covers scan.operands k.place = true := by
    intro k
    rw [List.mem_flatMap, covers, List.any_eq_true]
    constructor
    · rintro ⟨s, hs, hk⟩
      rw [quotedKeys_slice (hoperands s hs), List.mem_filter] at hk
      exact ⟨hk.1, s, hs, hk.2⟩
    · rintro ⟨hk, s, hs, hplace⟩
      refine ⟨s, hs, ?_⟩
      rw [quotedKeys_slice (hoperands s hs), List.mem_filter]
      exact ⟨hk, hplace⟩
  rw [show ([] : List QuotedKey) = (quotedKeys 0 unit).filter fun _ => false by simp,
    foldl_insertKey (pairwise_quotedKeys 0 unit)]
  · congr 1
    refine List.filter_congr fun k hk => ?_
    rw [Bool.false_or, Bool.eq_iff_iff, decide_eq_true_iff, List.mem_filter, hfound,
      Bool.and_eq_true]
    exact ⟨fun h => ⟨h.1.2, h.2⟩, fun h => ⟨⟨hk, h.1⟩, h.2⟩⟩
  · intro k hk
    exact ((hfound k).mp (List.mem_of_mem_filter hk)).1

theorem map_key_of_agrees {e : Effect} {literals : List QuotedKey} {os : List Occurrence}
    (h : List.Forall₂ e.Agrees literals os) :
    ((literals.filter fun k => HasKeyShape k.key).filter fun k =>
      covers e.operands k.place && !covers e.arguments k.place).map QuotedKey.key
      = (os.filter fun o => HasKeyShape o.content && o.isOperand && !o.isArgument).map
        Occurrence.content := by
  induction h with
  | nil => rfl
  | @cons k o literals os hagrees _ ih =>
      have hsame : (covers e.operands k.place && !covers e.arguments k.place
          && decide (HasKeyShape k.key))
          = (decide (HasKeyShape o.content) && o.isOperand && !o.isArgument) := by
        rw [hagrees.operand, hagrees.argument, Bool.and_comm, Bool.and_assoc]
        simp only [hagrees.content]
      rw [List.filter_filter] at ih ⊢
      rw [List.filter_cons, List.filter_cons, hsame]
      split
      · rw [List.map_cons, List.map_cons, ih, hagrees.content]
      · exact ih

/-- The keys that are found in the text of a tree are those of its literals that are operands of the
translation pipe and no arguments. -/
theorem pipedKeys_of_spaced {items : List Item} {unit : Text} (h : Spaced (tokens items) unit) :
    pipedKeys unit = translatedKeys items := by
  rw [← List.append_nil (tokens items)] at h
  obtain ⟨e, y, u, hadvance, hexplains, hrest, _⟩ :=
    exists_advance (x := []) items (by simp [EndsGroup]) h (.inl trivial)
  -- Only blanks are left after the items, so that the effect is that of the whole text.
  have hblanks := Advance.blanks hrest.isBlank_of_nil y []
  rw [List.append_nil] at hblanks
  have hall := hadvance.trans hblanks
  have htext : y ++ u = unit := hadvance.text.symm
  rw [e.append_empty, htext] at hall
  have hwithin : e.Within 0 unit.length := hall.within
  have hscan : scanCode {} 0 unit = (Scan.add {} e).finished unit.length := by
    refine (hall.scan {}).trans ?_
    rw [scanCode]
  have hoperands : (scanCode {} 0 unit).operands = (e.closed 0 unit.length).operands := by
    rw [hscan]
    simp [Scan.finished, Scan.add, Effect.closed]
  have harguments : (scanCode {} 0 unit).arguments = (e.closed 0 unit.length).arguments := by
    rw [hscan]
    simp [Scan.finished, Scan.add, Effect.closed]
  have hkeys : quotedKeys 0 unit = e.literals.filter fun k => HasKeyShape k.key := by
    refine hall.keys.trans ?_
    rw [quotedKeys, List.append_nil]
  have hsettled : ∀ s ∈ (scanCode {} 0 unit).operands, s.IsSettled unit := by
    rw [hoperands]
    exact hwithin.isSettled_closed hall.settled hall.bar trivial (Nat.le_refl _)
  rw [pipedKeys_eq hsettled, hoperands, harguments, hkeys, translatedKeys]
  exact map_key_of_agrees (hexplains.agrees_closed hwithin)

theorem spaced_join (ws : List Text) : Spaced ws (Text.join [' '] ws) := by
  induction ws with
  | nil => exact .nil
  | cons w ws ih =>
      cases ws with
      | nil =>
          have hlast : Spaced [w] (w ++ []) := .token w (by simp [Boundary]) .nil
          rwa [List.append_nil] at hlast
      | cons w' ws =>
          have hnext : Spaced (w :: w' :: ws) (w ++ ' ' :: Text.join [' '] (w' :: ws)) :=
            .token w (by simp [Boundary, Text.isBlank]) (.blank rfl ih)
          simpa [Text.join] using hnext

theorem pipedKeys_of_nested_group :
    pipedKeys "( 'a.b' | transloco ) | titlecase : 'c.d'".toList = ["a.b".toList] := by
  have hwritten := spaced_join (tokens
    [.group .round
      [.literal ⟨'\'', "a.b".toList, rfl, by simp [isQuote]⟩, .bar,
        .word "transloco".toList (List.all_eq_true.mp rfl)],
      .bar, .word "titlecase".toList (List.all_eq_true.mp rfl),
      .word [':'] (List.all_eq_true.mp rfl),
      .literal ⟨'\'', "c.d".toList, rfl, by simp [isQuote]⟩])
  exact (pipedKeys_of_spaced hwritten).trans (by decide +kernel)

end KeyLint.Expression
