import KeyLint.Proofs.Expression.Quoted

/-!
# Quoted tokens at any place

The search for quoted keys goes from left to right and takes a token only where the one before it has
ended. Here are the tokens at all places, those that overlap included: what is found is one of them,
and a token that is not found begins within one that is.
-/

namespace KeyLint.Expression

/-! ## Tokens of a text -/

/-- The key between quotes that a text begins with. -/
def tokenAt? : Text → Option Text
  | [] => none
  | c :: cs => if isQuote c then (keyAfterQuote? cs).map Prod.fst else none

theorem tokenAt?_eq_some_iff {t key : Text} :
    tokenAt? t = some key ↔ HasKeyShape key ∧
      ∃ first last, isQuote first = true ∧ isQuote last = true ∧ first :: (key ++ [last]) <+: t := by
  cases t with
  | nil => simp [tokenAt?]
  | cons c cs =>
      simp only [tokenAt?, Option.ite_none_right_eq_some, Option.map_eq_some_iff, Prod.exists,
        keyAfterQuote?_eq_some_iff]
      constructor
      · rintro ⟨hc, _, rest, ⟨hshape, last, hlast, rfl⟩, rfl⟩
        exact ⟨hshape, c, last, hc, hlast, rest, by simp⟩
      · rintro ⟨hshape, first, last, hfirst, hlast, rest, heq⟩
        obtain ⟨rfl, rfl⟩ := List.cons.inj heq
        exact ⟨hfirst, key, rest, ⟨hshape, last, hlast, by simp⟩, rfl⟩

/-- The quoted keys at all places of a text whose first character has the given place. -/
def quotedTokens (place : Nat) : Text → List QuotedKey
  | [] => []
  | c :: cs => ((tokenAt? (c :: cs)).map (QuotedKey.mk place)).toList ++ quotedTokens (place + 1) cs

theorem mem_quotedTokens_cons {place : Nat} {c : Char} {cs : Text} {k : QuotedKey} :
    k ∈ quotedTokens place (c :: cs) ↔
      (k.place = place ∧ tokenAt? (c :: cs) = some k.key) ∨ k ∈ quotedTokens (place + 1) cs := by
  obtain ⟨start, key⟩ := k
  simp [quotedTokens, and_comm, eq_comm]

/-- The tokens of a text are the keys that it goes on with at their places. -/
theorem mem_quotedTokens_iff {place : Nat} {t : Text} {k : QuotedKey} :
    k ∈ quotedTokens place t ↔ place ≤ k.place ∧ tokenAt? (t.drop (k.place - place)) = some k.key := by
  induction t generalizing place with
  | nil => simp [quotedTokens, tokenAt?]
  | cons c cs ih =>
      rw [mem_quotedTokens_cons, ih]
      rcases Nat.lt_trichotomy k.place place with hlt | rfl | hgt
      · omega
      · have hnot : ¬ k.place + 1 ≤ k.place := Nat.not_succ_le_self _
        simp [hnot]
      · have hdrop : (c :: cs).drop (k.place - place) = cs.drop (k.place - (place + 1)) := by
          rw [show k.place - place = k.place - (place + 1) + 1 by omega, List.drop_succ_cons]
        rw [hdrop]
        simp [Nat.ne_of_gt hgt, Nat.le_of_lt hgt, Nat.succ_le_of_lt hgt]

theorem tokenAt?_take {t key : Text} {n : Nat} :
    tokenAt? (t.take n) = some key ↔ tokenAt? t = some key ∧ key.length + 2 ≤ n := by
  simp only [tokenAt?_eq_some_iff, List.prefix_take_iff, List.length_cons, List.length_append,
    List.length_nil]
  constructor
  · rintro ⟨hshape, first, last, hfirst, hlast, htoken, hlength⟩
    exact ⟨⟨hshape, first, last, hfirst, hlast, htoken⟩, hlength⟩
  · rintro ⟨⟨hshape, first, last, hfirst, hlast, htoken⟩, hlength⟩
    exact ⟨hshape, first, last, hfirst, hlast, htoken, hlength⟩

/-- The tokens of a part of a text are those of the text that lie within the part. -/
theorem mem_quotedTokens_slice {t : Text} {start stop : Nat} {k : QuotedKey} :
    k ∈ quotedTokens start ((t.take stop).drop start) ↔
      k ∈ quotedTokens 0 t ∧ start ≤ k.place ∧ k.stop < stop := by
  rw [mem_quotedTokens_iff, mem_quotedTokens_iff, List.drop_drop]
  constructor
  · rintro ⟨hle, htoken⟩
    rw [Nat.add_sub_cancel' hle, List.drop_take, tokenAt?_take] at htoken
    refine ⟨⟨Nat.zero_le _, htoken.1⟩, hle, ?_⟩
    rw [QuotedKey.stop]
    omega
  · rintro ⟨⟨_, htoken⟩, hle, hstop⟩
    rw [QuotedKey.stop] at hstop
    rw [Nat.add_sub_cancel' hle, List.drop_take, tokenAt?_take]
    exact ⟨hle, htoken, by omega⟩

/-! ## Tokens that are found -/

theorem mem_quotedTokens_append {place : Nat} {s t : Text} {k : QuotedKey} :
    k ∈ quotedTokens (place + s.length) t ↔
      k ∈ quotedTokens place (s ++ t) ∧ place + s.length ≤ k.place := by
  rw [mem_quotedTokens_iff, mem_quotedTokens_iff, List.drop_append, Nat.sub_sub]
  constructor
  · rintro ⟨hle, htoken⟩
    rw [List.drop_eq_nil_of_le (by omega), List.nil_append]
    exact ⟨⟨by omega, htoken⟩, hle⟩
  · rintro ⟨⟨_, htoken⟩, hle⟩
    rw [List.drop_eq_nil_of_le (by omega), List.nil_append] at htoken
    exact ⟨hle, htoken⟩

/-- The tokens after a quoted key. -/
theorem mem_quotedTokens_after {place : Nat} {c : Char} {cs key rest : Text} {k : QuotedKey}
    (h : keyAfterQuote? cs = some (key, rest)) :
    k ∈ quotedTokens (place + (1 + cs.length - rest.length)) rest ↔
      k ∈ quotedTokens place (c :: cs) ∧ place + key.length + 1 < k.place := by
  obtain ⟨_, last, _, rfl⟩ := keyAfterQuote?_eq_some_iff.mp h
  have hafter : k ∈ quotedTokens (place + (c :: (key ++ [last])).length) rest ↔ _ :=
    mem_quotedTokens_append
  have hlength : (c :: (key ++ [last])).length = key.length + 2 := by simp
  have hwidth : 1 + (key ++ last :: rest).length - rest.length = key.length + 2 := by
    simp only [List.length_append, List.length_cons]
    omega
  rw [hlength] at hafter
  rw [hwidth, hafter, List.cons_append, List.append_assoc, List.singleton_append]
  exact and_congr_right fun _ => by omega

theorem mem_quotedTokens_of_quotedKeys {place : Nat} {t : Text} :
    ∀ k ∈ quotedKeys place t, k ∈ quotedTokens place t := by
  fun_induction quotedKeys place t with
  | case1 => simp
  | case2 place c cs hc key rest hkey ih =>
      refine List.forall_mem_cons.mpr ⟨?_, fun k hk => ?_⟩
      · simp [mem_quotedTokens_cons, tokenAt?, hc, hkey]
      · exact ((mem_quotedTokens_after hkey).mp (ih k hk)).1
  | case3 place c cs hc hnone ih =>
      exact fun k hk => mem_quotedTokens_cons.mpr (.inr (ih k hk))
  | case4 place c cs hc ih =>
      exact fun k hk => mem_quotedTokens_cons.mpr (.inr (ih k hk))

/-- A token that is not found begins within one that is. -/
theorem mem_quotedKeys_or_within {place : Nat} {t : Text} :
    ∀ k ∈ quotedTokens place t, k ∈ quotedKeys place t ∨
      ∃ l ∈ quotedKeys place t, l.place < k.place ∧ k.place ≤ l.stop := by
  fun_induction quotedKeys place t with
  | case1 => simp [quotedTokens]
  | case2 place c cs hc key rest hkey ih =>
      intro k hk
      by_cases hafter : place + key.length + 1 < k.place
      · rcases ih k ((mem_quotedTokens_after hkey).mpr ⟨hk, hafter⟩) with hfound | ⟨l, hl, hwithin⟩
        · exact .inl (List.mem_cons_of_mem _ hfound)
        · exact .inr ⟨l, List.mem_cons_of_mem _ hl, hwithin⟩
      · rcases mem_quotedTokens_cons.mp hk with ⟨hplace, htoken⟩ | hlater
        · have hsame : k = ⟨place, key⟩ := by
            obtain ⟨start, other⟩ := k
            simp only [tokenAt?, hc, hkey, if_true, Option.map_some, Option.some.injEq] at htoken
            simp_all
          exact .inl (hsame ▸ List.mem_cons_self)
        · have hle := (mem_quotedTokens_iff.mp hlater).1
          exact .inr ⟨_, List.mem_cons_self, hle, Nat.le_of_not_lt hafter⟩
  | case3 place c cs hc hnone ih =>
      intro k hk
      rcases mem_quotedTokens_cons.mp hk with ⟨_, htoken⟩ | hlater
      · simp [tokenAt?, hnone] at htoken
      · exact ih k hlater
  | case4 place c cs hc ih =>
      intro k hk
      rcases mem_quotedTokens_cons.mp hk with ⟨_, htoken⟩ | hlater
      · simp [tokenAt?, hc] at htoken
      · exact ih k hlater

/-! ## Clauses that read a key -/

/-- A text ends with the word `read`, a colon and blanks. -/
def endsInRead (t : Text) : Bool :=
  match Text.before? [':'] (Text.trimEnd t) with
  | none => false
  | some t =>
    match Text.before? "read".toList (Text.trimEnd t) with
    | none => false
    | some t => !t.getLast?.any Text.isWordChar

theorem endsInRead_append {t blanks blanks' : Text} (ht : t.getLast?.any Text.isWordChar = false)
    (h : ∀ c ∈ blanks, Text.isBlank c = true) (h' : ∀ c ∈ blanks', Text.isBlank c = true) :
    endsInRead (t ++ ("read".toList ++ (blanks ++ ':' :: blanks'))) = true := by
  have hcolon : Text.trimEnd (t ++ ("read".toList ++ (blanks ++ ':' :: blanks')))
      = t ++ "rea".toList ++ 'd' :: blanks ++ [':'] := by
    rw [← Text.trimEnd_append_cons (by decide) _ h']
    simp
  have hword : Text.trimEnd (t ++ "rea".toList ++ 'd' :: blanks) = t ++ "read".toList := by
    rw [Text.trimEnd_append_cons (by decide) _ h]
    simp
  simp only [endsInRead, hcolon, Text.before?_append, hword, ht, Bool.not_false]

theorem of_readClause?_eq_some {t key rest : Text} (h : readClause? t = some (key, rest)) :
    ∃ blanks blanks' first tail, t = "read".toList ++ (blanks ++ ':' :: blanks') ++ first :: tail ∧
      (∀ c ∈ blanks, Text.isBlank c = true) ∧ (∀ c ∈ blanks', Text.isBlank c = true) ∧
      isQuote first = true ∧ keyAfterQuote? tail = some (key, rest) := by
  unfold readClause? at h
  split at h
  · cases h
  · next afterWord hword =>
      split at h
      · next afterColon hcolon =>
          split at h
          · next first tail hfirst =>
              split at h
              · next hquote =>
                  refine ⟨afterWord.takeWhile Text.isBlank, afterColon.takeWhile Text.isBlank, first,
                    tail, ?_, fun c => List.mem_takeWhile_imp, fun c => List.mem_takeWhile_imp,
                    hquote, h⟩
                  rw [Text.eq_append_of_after?_eq_some hword, List.append_assoc, List.append_assoc,
                    List.cons_append, ← hfirst, List.takeWhile_append_dropWhile, ← hcolon,
                    List.takeWhile_append_dropWhile]
              · cases h
          · cases h
      · cases h

theorem not_isWordChar_of_isQuote {c : Char} (h : isQuote c = true) : Text.isWordChar c = false := by
  rw [Bool.eq_false_iff]
  intro hword
  have hinner : isInnerKeyChar c = true := by simp [isInnerKeyChar, hword]
  rw [not_isQuote_of_isInnerKeyChar hinner] at h
  cases h

/-- The keys that are read are tokens, in the order of their places. -/
theorem exists_readTokens {x t : Text} {inWord : Bool}
    (hx : x.getLast?.any Text.isWordChar = inWord) :
    ∃ found : List QuotedKey, readKeys inWord t = found.map QuotedKey.key ∧
      (found.Pairwise fun k l => k.place < l.place) ∧
      ∀ k ∈ found, x.length ≤ k.place ∧ k ∈ quotedTokens 0 (x ++ t) ∧
        endsInRead ((x ++ t).take k.place) = true := by
  fun_induction readKeys inWord t generalizing x with
  | case1 => exact ⟨[], rfl, .nil, by simp⟩
  | case2 inWord c cs key rest hclause ih =>
      obtain ⟨hword, hclause⟩ := Option.ite_none_left_eq_some.mp hclause
      obtain ⟨blanks, blanks', first, tail, htext, hblanks, hblanks', hfirst, hkey⟩ :=
        of_readClause?_eq_some hclause
      obtain ⟨hshape, last, hlast, rfl⟩ := keyAfterQuote?_eq_some_iff.mp hkey
      have hread := endsInRead_append (t := x) (by simpa [hx] using hword) hblanks hblanks'
      generalize "read".toList ++ (blanks ++ ':' :: blanks') = clause at htext hread
      have hquoted : c :: cs = clause ++ (first :: (key ++ [last])) ++ rest := by simp [htext]
      have hend : (x ++ (clause ++ first :: (key ++ [last]))).getLast?.any Text.isWordChar
          = false := by
        rw [show x ++ (clause ++ first :: (key ++ [last])) = x ++ clause ++ first :: key ++ [last] by
          simp, List.getLast?_concat]
        exact not_isWordChar_of_isQuote hlast
      obtain ⟨found, hkeys, hsorted, hfound⟩ := ih hend
      rw [List.append_assoc, ← hquoted] at hfound
      refine ⟨⟨(x ++ clause).length, key⟩ :: found, by simp [hkeys],
        List.pairwise_cons.mpr ⟨fun k hk => ?_, hsorted⟩,
        List.forall_mem_cons.mpr ⟨⟨by simp, ?_, ?_⟩, fun k hk => ?_⟩⟩
      · have hle := (hfound k hk).1
        simp only [List.length_append, List.length_cons] at hle ⊢
        omega
      · rw [mem_quotedTokens_iff, hquoted, List.append_assoc, ← List.append_assoc, Nat.sub_zero,
          List.drop_left, tokenAt?_eq_some_iff]
        exact ⟨Nat.zero_le _, hshape, first, last, hfirst, hlast, List.prefix_append _ _⟩
      · rw [hquoted, List.append_assoc, ← List.append_assoc, List.take_left]
        exact hread
      · obtain ⟨hle, hrest⟩ := hfound k hk
        rw [List.length_append] at hle
        exact ⟨Nat.le_of_add_right_le hle, hrest⟩
  | case3 inWord c cs hnone ih =>
      obtain ⟨found, hkeys, hsorted, hfound⟩ := ih (x := x ++ [c]) (by simp)
      refine ⟨found, hkeys, hsorted, fun k hk => ?_⟩
      obtain ⟨hle, htoken, hread⟩ := hfound k hk
      rw [List.append_assoc, List.singleton_append] at htoken hread
      rw [List.length_append] at hle
      exact ⟨Nat.le_of_add_right_le hle, htoken, hread⟩

end KeyLint.Expression
