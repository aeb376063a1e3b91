import KeyLint.Proofs.Expression.Effects

/-!
# Scanning the text of a tree

The scanner goes through the tokens of a tree one by one. It comes out of each item with the effect
that explains the item, whatever the scan was before.
-/

namespace KeyLint.Expression

/-! ## Steps of the scanner -/

theorem isPlain_iff {c : Char} : isPlain c = true ↔
    opensString c = false ∧ opensGroup c = false ∧ closesGroup c = false ∧ c ≠ '|' := by
  simp [isPlain, and_assoc]

theorem isPlain_of_isBlank {c : Char} (h : Text.isBlank c = true) : isPlain c = true := by
  have hplain : (!isPlain c) = false :=
    Text.eq_false_of_isBlank (p := fun c => !isPlain c) (by decide +kernel) h
  simpa using hplain

theorem not_isQuote_of_isPlain {c : Char} (h : isPlain c = true) : isQuote c = false :=
  (Bool.or_eq_false_iff.mp (isPlain_iff.mp h).1).1

theorem scanCode_cons {c : Char} (hc : c ≠ '|') (scan : Scan) (place : Nat) (t : Text) :
    scanCode scan place (c :: t)
      = if opensString c then scanString c scan (place + 1) t
        else if opensGroup c then scanCode (scan.opened (place + 1)) (place + 1) t
        else if closesGroup c then scanCode (scan.closed place) (place + 1) t
        else scanCode scan (place + 1) t := by
  rw [scanCode]
  · simp [hc]
  · exact fun _ h => absurd h hc

theorem scanCode_plain {w : Text} (hw : ∀ c ∈ w, isPlain c = true) (scan : Scan) (place : Nat)
    (t : Text) : scanCode scan place (w ++ t) = scanCode scan (place + w.length) t := by
  induction w generalizing place with
  | nil => rfl
  | cons c w ih =>
      obtain ⟨hstring, hopen, hclose, hbar⟩ := isPlain_iff.mp (hw c List.mem_cons_self)
      rw [List.cons_append, scanCode_cons hbar, ih fun x hx => hw x (List.mem_cons_of_mem c hx)]
      simp [hstring, hopen, hclose, Nat.add_assoc, Nat.add_comm 1]

theorem scanString_append {quote : Char} {content : Text}
    (hcontent : ∀ c ∈ content, c ≠ quote ∧ c ≠ '\\') (hquote : quote ≠ '\\') (scan : Scan)
    (place : Nat) (t : Text) :
    scanString quote scan place (content ++ quote :: t)
      = scanCode scan (place + content.length + 1) t := by
  induction content generalizing place with
  | nil =>
      rw [List.nil_append, scanString]
      · simp
      · exact fun _ _ h => absurd h hquote
  | cons c content ih =>
      obtain ⟨hc, hbackslash⟩ := hcontent c List.mem_cons_self
      rw [List.cons_append, scanString]
      · rw [if_neg hc, ih fun x hx => hcontent x (List.mem_cons_of_mem c hx), List.length_cons,
          Nat.add_assoc place, Nat.add_comm 1]
      · exact fun _ _ h => absurd h hbackslash

theorem scanCode_literal (l : Literal) (scan : Scan) (place : Nat) (t : Text) :
    scanCode scan place (l.render ++ t) = scanCode scan (place + l.render.length) t := by
  have hquote : l.quote = '\'' ∨ l.quote = '"' := by
    simpa [isQuote] using l.quoted
  have hcontent : ∀ c ∈ l.content, c ≠ l.quote ∧ c ≠ '\\' := by
    intro c hc
    obtain ⟨hfree, hbackslash⟩ := l.free c hc
    refine ⟨?_, hbackslash⟩
    rintro rfl
    rw [l.quoted] at hfree
    cases hfree
  have hbackslash : l.quote ≠ '\\' := by
    rcases hquote with h | h <;> rw [h] <;> decide
  have hbar : l.quote ≠ '|' := by
    rcases hquote with h | h <;> rw [h] <;> decide
  have hopens : opensString l.quote = true := by simp [opensString, l.quoted]
  have hlength : place + 1 + l.content.length + 1 = place + l.render.length := by
    simp only [Literal.render, List.length_cons, List.length_append, List.length_nil]
    omega
  rw [← hlength, Literal.render, List.cons_append, scanCode_cons hbar, if_pos hopens,
    List.append_assoc, List.singleton_append, scanString_append hcontent hbackslash]

theorem keyAfterQuote?_of_boundary {t : Text} (ht : Boundary t) : keyAfterQuote? t = none := by
  cases t with
  | nil => rfl
  | cons b t =>
      have hb := ht b rfl
      have hnone : keyAfterQuote? ([] ++ b :: t) = _ :=
        keyAfterQuote?_append_cons (by simp) (by simp [isTokenChar, hb]) t
      simpa [not_isQuote_of_isBlank hb] using hnone

theorem quotedKeys_literal (l : Literal) {t : Text} (ht : Boundary t) (place : Nat) :
    quotedKeys place (l.render ++ t)
      = (if HasKeyShape l.content then [⟨place, l.content⟩] else [])
        ++ quotedKeys (place + l.render.length) t := by
  have hfree : ∀ c ∈ l.content, isQuote c = false := fun c hc => (l.free c hc).1
  have hafter := keyAfterQuote?_content hfree l.quoted t
  have hlength : l.render.length = l.content.length + 2 := by simp [Literal.render]
  rw [Literal.render, List.cons_append, List.append_assoc, List.singleton_append, ← Literal.render,
    hlength]
  by_cases hshape : HasKeyShape l.content
  · rw [if_pos hshape] at hafter ⊢
    have hwidth : 1 + (l.content ++ l.quote :: t).length - t.length = l.content.length + 2 := by
      simp only [List.length_append, List.length_cons]
      omega
    rw [quotedKeys_of_key place l.quoted hafter, hwidth]
    rfl
  · rw [if_neg hshape] at hafter ⊢
    rw [quotedKeys_of_no_key place fun _ => hafter, quotedKeys_append_of_no_quote hfree,
      quotedKeys_of_no_key _ fun _ => keyAfterQuote?_of_boundary ht, List.nil_append,
      show place + 1 + l.content.length + 1 = place + (l.content.length + 2) by omega]

theorem scanCode_bar {t : Text} (ht : t.head? ≠ some '|') (scan : Scan) (place : Nat) :
    scanCode scan place ('|' :: t)
      = scanCode (scan.piped place (pipeName t = translationPipe)) (place + 1) t := by
  rw [scanCode]
  · simp [opensString, isQuote, opensGroup, closesGroup]
  · rintro cs - rfl
    exact ht rfl

theorem Bracket.not_isQuote_opening (bracket : Bracket) : isQuote bracket.opening = false := by
  cases bracket <;> rfl

theorem Bracket.not_isQuote_closing (bracket : Bracket) : isQuote bracket.closing = false := by
  cases bracket <;> rfl

theorem scanCode_opening (bracket : Bracket) (scan : Scan) (place : Nat) (t : Text) :
    scanCode scan place (bracket.opening :: t)
      = scanCode (scan.opened (place + 1)) (place + 1) t := by
  cases bracket <;> exact scanCode_cons (by decide) scan place t

theorem scanCode_closing (bracket : Bracket) (scan : Scan) (place : Nat) (t : Text) :
    scanCode scan place (bracket.closing :: t) = scanCode (scan.closed place) (place + 1) t := by
  cases bracket <;> exact scanCode_cons (by decide) scan place t

/-! ## Going through a text -/

/-- The ends of a stretch are between the tokens of a text. -/
structure Stretch.IsSettled (s : Stretch) (text : Text) : Prop where
  start : Settled (text.take s.start)
  stop : Settled (text.take s.stop)
  le : s.start ≤ s.stop
  le_length : s.stop ≤ text.length

/-- Closing a group adds no stretch with an end within a token. -/
theorem Effect.Within.isSettled_closed {e : Effect} {start stop : Nat} {text : Text}
    (h : e.Within start stop) (hoperands : ∀ s ∈ e.operands, s.IsSettled text)
    (hbar : ∀ b ∈ e.bar, Settled (text.take b)) (hstart : Settled (text.take start))
    (hstop : stop ≤ text.length) : ∀ s ∈ (e.closed start stop).operands, s.IsSettled text := by
  refine List.forall_mem_append.mpr ⟨hoperands, fun s hs => ?_⟩
  obtain ⟨b, hb, rfl⟩ := Group.mem_operand hs
  obtain ⟨hlow, hhigh⟩ := h.bar b hb
  exact ⟨hstart, hbar b hb, hlow, Nat.le_trans (Nat.le_of_lt hhigh) hstop⟩

/-- The scanner gets from one place of a text to a later one with an effect: the text is `x` before
the first place and `t` after it, `y` before the second and `u` after it. -/
structure Advance (x t y u : Text) (e : Effect) : Prop where
  text : x ++ t = y ++ u
  within : e.Within x.length y.length
  settled : ∀ s ∈ e.operands, s.IsSettled (x ++ t)
  bar : ∀ b ∈ e.bar, Settled ((x ++ t).take b)
  scan : ∀ scan, scanCode scan x.length t = scanCode (scan.add e) y.length u
  keys : quotedKeys x.length t
    = e.literals.filter (fun k => HasKeyShape k.key) ++ quotedKeys y.length u

namespace Advance

variable {x t y u z v w : Text} {e f : Effect}

theorem refl (x t : Text) : Advance x t x t {} where
  text := rfl
  within := .empty (Nat.le_refl _)
  settled := by simp
  bar := by simp
  scan scan := by rw [scan.add_literals]
  keys := rfl

theorem trans (h : Advance x t y u e) (g : Advance y u z v f) : Advance x t z v (e.append f) where
  text := h.text.trans g.text
  within := h.within.append g.within
  settled := by
    refine List.forall_mem_append.mpr ⟨h.settled, ?_⟩
    rw [h.text]
    exact g.settled
  bar b hb := by
    cases hbar : e.bar with
    | none =>
        rw [h.text]
        exact g.bar b (by simpa [Effect.append, hbar] using hb)
    | some a => exact h.bar b (by simpa [Effect.append, hbar] using hb)
  scan scan := by rw [h.scan, g.scan, scan.add_append]
  keys := by
    rw [h.keys, g.keys, Effect.append, List.filter_append, List.append_assoc]

/-- A part of a text that changes no scan. -/
theorem of_scan
    (hscan : ∀ scan place, scanCode scan place (w ++ t) = scanCode scan (place + w.length) t)
    (hw : ∀ c ∈ w, isQuote c = false) (x : Text) : Advance x (w ++ t) (x ++ w) t {} where
  text := (List.append_assoc x w t).symm
  within := .empty (by simp)
  settled := by simp
  bar := by simp
  scan scan := by rw [scan.add_literals, hscan, List.length_append]
  keys := by rw [quotedKeys_append_of_no_quote hw, List.length_append]; rfl

theorem plain (hw : ∀ c ∈ w, isPlain c = true) (x t : Text) : Advance x (w ++ t) (x ++ w) t {} :=
  of_scan (fun scan place => scanCode_plain hw scan place t)
    (fun c hc => not_isQuote_of_isPlain (hw c hc)) x

theorem or (x t : Text) : Advance x ('|' :: '|' :: t) (x ++ ['|', '|']) t {} :=
  of_scan (w := ['|', '|']) (fun scan place => by simp [scanCode]) (by simp [isQuote]) x

theorem literal (l : Literal) (ht : Boundary t) (x : Text) :
    Advance x (l.render ++ t) (x ++ l.render) t { literals := [⟨x.length, l.content⟩] } where
  text := (List.append_assoc x l.render t).symm
  within :=
    { Effect.Within.empty (by simp) with
      literal := by simp [Literal.render] }
  settled := by simp
  bar := by simp
  scan scan := by
    rw [scanCode_literal, scan.add_literals, List.length_append]
  keys := by
    rw [quotedKeys_literal l ht, List.length_append]
    by_cases hshape : HasKeyShape l.content
    · simp [hshape]
    · simp [hshape]

theorem single_bar (ht : t.head? ≠ some '|') (hx : Settled x) :
    Advance x ('|' :: t) (x ++ ['|']) t
      { bar := some x.length, translated := pipeName t = translationPipe } where
  text := by simp
  within :=
    { Effect.Within.empty (by simp) with
      bar := by simp
      translated := by simp }
  settled := by simp
  bar := by simpa using hx
  scan scan := by
    rw [scanCode_bar ht, scan.piped_eq_add]
    simp
  keys := by
    rw [quotedKeys_of_no_key _ (by simp [isQuote])]
    simp

theorem group (bracket : Bracket) (hx : Settled x)
    (h : Advance (x ++ [bracket.opening]) t y (bracket.closing :: u) e) :
    Advance x (bracket.opening :: t) (y ++ [bracket.closing]) u
      (e.closed (x.length + 1) y.length) := by
  have hlength : (x ++ [bracket.opening]).length = x.length + 1 := by simp
  have htext : x ++ bracket.opening :: t = x ++ [bracket.opening] ++ t := by simp
  have hwithin := h.within
  rw [hlength] at hwithin
  constructor
  · simpa using h.text
  · exact hwithin.closed.mono (Nat.le_succ _) (by simp)
  · rw [htext]
    refine hwithin.isSettled_closed h.settled h.bar ?_ ?_
    · rw [← hlength, List.take_left]
      exact hx.append (by simpa using bracket.not_isQuote_opening)
    · rw [h.text, List.length_append]
      exact Nat.le_add_right _ _
  · simp [Effect.closed]
  · intro scan
    have hscan := h.scan (scan.opened (x.length + 1))
    rw [hlength] at hscan
    rw [scanCode_opening, hscan, scanCode_closing, scan.closed_add_opened]
    simp
  · have hkeys := h.keys
    rw [hlength, quotedKeys_of_no_key (c := bracket.closing) _
      (by simp [bracket.not_isQuote_closing])] at hkeys
    rw [quotedKeys_of_no_key _ (by simp [bracket.not_isQuote_opening]), hkeys]
    simp [Effect.closed]

end Advance

/-! ## Tokens -/

theorem Spaced.exists_blanks {w : Text} {ws : List Text} {t : Text} (h : Spaced (w :: ws) t) :
    ∃ blanks u, t = blanks ++ (w ++ u) ∧ (∀ c ∈ blanks, Text.isBlank c = true) ∧ Boundary u ∧
      Spaced ws u := by
  generalize hws : w :: ws = all at h
  induction h with
  | nil => cases hws
  | blank hc _ ih =>
      obtain ⟨blanks, u, rfl, hblanks, hu, hrest⟩ := ih hws
      exact ⟨_ :: blanks, u, rfl, List.forall_mem_cons.mpr ⟨hc, hblanks⟩, hu, hrest⟩
  | token w hboundary hrest _ =>
      cases hws
      exact ⟨[], _, rfl, by simp, hboundary, hrest⟩

theorem Spaced.isBlank_of_nil {t : Text} (h : Spaced [] t) : ∀ c ∈ t, Text.isBlank c = true := by
  generalize hws : [] = all at h
  induction h with
  | nil => simp
  | blank hc _ ih => exact List.forall_mem_cons.mpr ⟨hc, ih hws⟩
  | token => cases hws

/-- What may follow the items of a group: nothing, or the bracket that closes the group. -/
def EndsGroup (ws : List Text) : Prop :=
  ∀ w ∈ ws.head?, ∃ bracket : Bracket, w = [bracket.closing]

theorem pipeName_eq (t : Text) : pipeName t = (Text.trimStart t).takeWhile isIdentifierChar := rfl

theorem pipeName_blanks {blanks : Text} (h : ∀ c ∈ blanks, Text.isBlank c = true) (t : Text) :
    pipeName (blanks ++ t) = pipeName t := by
  rw [pipeName_eq, pipeName_eq, Text.trimStart, List.dropWhile_append_of_pos h, ← Text.trimStart]

theorem pipeName_word {w u : Text} (hw : ∃ c ∈ w, Text.isBlank c = false) (hu : Boundary u) :
    pipeName (w ++ u) = (Text.trimStart w).takeWhile isIdentifierChar := by
  have hhead : ∀ c ∈ u.head?, isIdentifierChar c = false :=
    fun c hc => Text.eq_false_of_isBlank (by decide +kernel) (hu c hc)
  obtain ⟨blanks, c, rest, rfl, hblanks, hc⟩ := Text.exists_eq_append_cons hw
  have htrim : ∀ t, Text.trimStart (blanks ++ c :: t) = c :: t := by
    intro t
    rw [Text.trimStart, List.dropWhile_append_of_pos hblanks,
      List.dropWhile_cons_of_neg (by simp [hc])]
  rw [pipeName_eq, List.append_assoc, List.cons_append, htrim, htrim, ← List.cons_append,
    Text.takeWhile_append_of_boundary hhead]

/-- No pipe is named where a token begins that is not a word. -/
theorem Spaced.pipeName_eq_nil {c : Char} {w : Text} {ws : List Text} {t : Text}
    (h : Spaced ((c :: w) :: ws) t) (hblank : Text.isBlank c = false)
    (hc : isIdentifierChar c = false) : pipeName t = [] := by
  obtain ⟨blanks, u, rfl, hblanks, _⟩ := h.exists_blanks
  rw [pipeName_blanks hblanks, List.cons_append, pipeName_eq]
  simp [Text.trimStart, hblank, hc]

theorem not_isIdentifierChar_of_isQuote {c : Char} (h : isQuote c = true) :
    Text.isBlank c = false ∧ isIdentifierChar c = false := by
  simp only [isQuote, Bool.or_eq_true, decide_eq_true_eq] at h
  rcases h with rfl | rfl
  · exact ⟨rfl, by decide +kernel⟩
  · exact ⟨rfl, by decide +kernel⟩

theorem Bracket.not_isIdentifierChar (bracket : Bracket) :
    (Text.isBlank bracket.opening = false ∧ isIdentifierChar bracket.opening = false) ∧
      Text.isBlank bracket.closing = false ∧ isIdentifierChar bracket.closing = false := by
  cases bracket <;> exact ⟨⟨rfl, by decide +kernel⟩, rfl, by decide +kernel⟩

theorem not_isIdentifierChar_bar : isIdentifierChar '|' = false := by decide +kernel

/-- The name of the pipe after a bar is the identifier that the items after the bar go on with. -/
theorem pipeName_eq_identifier {items : List Item} {more : List Text} {t : Text}
    (hmore : EndsGroup more) (h : Spaced (tokens items ++ more) t) :
    pipeName t = identifier items := by
  induction items generalizing t with
  | nil =>
      cases more with
      | nil =>
          have hblank := h.isBlank_of_nil
          rw [← List.append_nil t, pipeName_blanks hblank]
          rfl
      | cons w more =>
          obtain ⟨bracket, rfl⟩ := hmore w rfl
          obtain ⟨_, hblank, hc⟩ := bracket.not_isIdentifierChar
          exact Spaced.pipeName_eq_nil h hblank hc
  | cons item items ih =>
      cases item with
      | word w hw =>
          obtain ⟨blanks, u, rfl, hblanks, hu, hrest⟩ := Spaced.exists_blanks h
          rw [pipeName_blanks hblanks, identifier]
          by_cases hall : w.all Text.isBlank = true
          · rw [if_pos hall, pipeName_blanks (List.all_eq_true.mp hall), ih hrest]
          · rw [if_neg hall, pipeName_word (by simpa using hall) hu]
      | literal l =>
          obtain ⟨hblank, hc⟩ := not_isIdentifierChar_of_isQuote l.quoted
          exact Spaced.pipeName_eq_nil h hblank hc
      | or => exact Spaced.pipeName_eq_nil h rfl not_isIdentifierChar_bar
      | bar => exact Spaced.pipeName_eq_nil h rfl not_isIdentifierChar_bar
      | group bracket content =>
          obtain ⟨⟨hblank, hc⟩, _⟩ := bracket.not_isIdentifierChar
          exact Spaced.pipeName_eq_nil h hblank hc

/-! ## Items -/

theorem settled_append_blanks {x blanks : Text} {c : Char} {t : Text}
    (h : Settled x ∨ Boundary (blanks ++ c :: t)) (hblanks : ∀ b ∈ blanks, Text.isBlank b = true)
    (hc : Text.isBlank c = false) : Settled (x ++ blanks) := by
  rcases List.eq_nil_or_concat' blanks with rfl | ⟨blanks, b, rfl⟩
  · rw [List.append_nil]
    refine h.resolve_right fun hboundary => ?_
    rw [hboundary c rfl] at hc
    cases hc
  · rw [← List.append_assoc]
    exact Settled.append_blank _ (hblanks b (by simp))

theorem Advance.blanks {blanks : Text} (h : ∀ c ∈ blanks, Text.isBlank c = true) (x t : Text) :
    Advance x (blanks ++ t) (x ++ blanks) t {} :=
  Advance.plain (fun c hc => isPlain_of_isBlank (h c hc)) x t

mutual

/-- The scanner comes out of an item other than a bar with an effect that agrees with the item. -/
theorem Item.exists_advance {more : List Text} {x t : Text} : (item : Item) → item ≠ .bar →
    Spaced (item.tokens ++ more) t → Settled x ∨ Boundary t →
    ∃ e y u, Advance x t y u e ∧ e.bar = none ∧ e.translated = false ∧
      List.Forall₂ e.Agrees e.literals item.occurrences ∧ Spaced more u ∧ Boundary u
  | .word w hw, _, h, _ => by
      obtain ⟨blanks, u, rfl, hblanks, hu, hrest⟩ := Spaced.exists_blanks h
      have hadvance := (Advance.blanks hblanks x (w ++ u)).trans (Advance.plain hw _ u)
      exact ⟨_, _, u, hadvance, rfl, rfl, .nil, hrest, hu⟩
  | .literal l, _, h, _ => by
      obtain ⟨blanks, u, rfl, hblanks, hu, hrest⟩ := Spaced.exists_blanks h
      have hadvance := (Advance.blanks hblanks x (l.render ++ u)).trans (Advance.literal l hu _)
      exact ⟨_, _, u, hadvance, rfl, rfl, .cons ⟨rfl, rfl, rfl⟩ .nil, hrest, hu⟩
  | .or, _, h, _ => by
      obtain ⟨blanks, u, rfl, hblanks, hu, hrest⟩ := Spaced.exists_blanks h
      have hadvance := (Advance.blanks hblanks x _).trans (Advance.or _ u)
      exact ⟨_, _, u, hadvance, rfl, rfl, .nil, hrest, hu⟩
  | .bar, hne, _, _ => absurd rfl hne
  | .group bracket content, _, h, hx => by
      rw [Item.tokens, List.cons_append, List.append_assoc] at h
      obtain ⟨blanks, r, rfl, hblanks, hr, hcontent⟩ := Spaced.exists_blanks h
      have hsettled := settled_append_blanks hx hblanks bracket.not_isIdentifierChar.1.1
      have hends : EndsGroup ([bracket.closing] :: more) := by
        intro w hw
        cases hw
        exact ⟨bracket, rfl⟩
      obtain ⟨e, y, s, hadvance, hexplains, hclosing, _⟩ :=
        exists_advance (x := x ++ blanks ++ [bracket.opening]) content hends hcontent (.inr hr)
      -- The group is closed at its bracket, after the blanks that follow its last item.
      obtain ⟨between, u, rfl, hbetween, hu, hrest⟩ := Spaced.exists_blanks hclosing
      have hinside := hadvance.trans (Advance.blanks hbetween y _)
      rw [e.append_empty] at hinside
      have hgroup := (Advance.blanks hblanks x _).trans (Advance.group bracket hsettled hinside)
      have hwithin := hinside.within
      rw [List.length_append] at hwithin
      exact ⟨_, _, u, hgroup, rfl, rfl, hexplains.agrees_closed hwithin, hrest, hu⟩

/-- The scanner comes out of items with an effect that explains them. -/
theorem exists_advance {more : List Text} {x t : Text} : (items : List Item) → EndsGroup more →
    Spaced (tokens items ++ more) t → Settled x ∨ Boundary t →
    ∃ e y u, Advance x t y u e ∧ e.Explains items ∧ Spaced more u ∧ (Settled y ∨ Boundary u)
  | [], _, h, hx => ⟨{}, x, t, .refl x t, .nil, h, hx⟩
  | item :: items, hmore, h, hx => by
      rw [tokens, List.append_assoc] at h
      by_cases hbar : item = .bar
      · subst hbar
        obtain ⟨blanks, r, rfl, hblanks, hr, hitems⟩ := Spaced.exists_blanks h
        have hsettled := settled_append_blanks hx hblanks rfl
        have hhead : r.head? ≠ some '|' := by
          intro hhead
          have hblank := hr '|' hhead
          cases hblank
        obtain ⟨f, y, u, hadvance, hexplains, hrest, hend⟩ :=
          exists_advance (x := x ++ blanks ++ ['|']) items hmore hitems (.inr hr)
        have hpiped := Advance.single_bar hhead hsettled
        rw [pipeName_eq_identifier hmore hitems] at hpiped
        have hall := (Advance.blanks hblanks x _).trans (hpiped.trans hadvance)
        refine ⟨_, y, u, hall, hexplains.bar ?_ hadvance.within, hrest, hend⟩
        simp
      · obtain ⟨e, y, s, hitem, hnone, htranslated, hagrees, hitems, hs⟩ :=
          Item.exists_advance item hbar h hx
        obtain ⟨f, z, u, hadvance, hexplains, hrest, hend⟩ :=
          exists_advance items hmore hitems (.inr hs)
        refine ⟨_, z, u, hitem.trans hadvance, ?_, hrest, hend⟩
        exact hexplains.cons hbar hnone htranslated hagrees hitem.within hadvance.within

end

end KeyLint.Expression
