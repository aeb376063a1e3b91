import Mathlib.Algebra.Group.Nat.Defs
import KeyLint.Proofs.Cursor.Entities
import KeyLint.Proofs.Template.Interpolations

/-!
# Regions of text by offsets

A region is passed over a second time to find its segments. Control flow is looked for from each `@`
on, up to the end of the region.
-/

namespace KeyLint.Cursor

/-! ## Control flow -/

/-- The offset after a word that ends a declaration or, if it has no end, that of the end. -/
def afterDeclaration (bs : Octets) (i : Nat) : Checked Nat := do
  let rest ← octetsBetween bs i bs.length
  match rest.findIdx? (· = ';') with
  | some k => pure (i + k + 1)
  | none => pure bs.length

def afterElse (keyword : Text) (bs : Octets) (i : Nat) : Checked Nat :=
  if keyword = "else".toList then do
    let rest ← octetsBetween bs i bs.length
    if "if".toList.isPrefixOf rest then skipWhile Text.isAsciiBlank bs (i + 2) else pure i
  else pure i

/-- The offset and how many parentheses are open there. -/
def parensTurn (bs : Octets) : Nat × Nat → Checked ((Nat × Nat) ⊕ Nat)
  | (i, depth) =>
    if i < bs.length then do
      let b ← byteAt bs i
      if b = '(' then pure (.inl (i + 1, depth + 1))
      else if b = ')' then
        let depth ← minus depth 1
        if depth = 0 then pure (.inr (i + 1)) else pure (.inl (i + 1, depth))
      else pure (.inl (i + 1, depth))
    else pure (.inr i)

def afterCondition (bs : Octets) (i : Nat) : Checked Nat :=
  if bs[i]? = some '(' then do
    let i ← iterate (fun state => bs.length - state.1) (parensTurn bs) (i, 0)
    skipWhile Text.isAsciiBlank bs i
  else pure i

/-- The offset after the brace that opens a block, whose header goes on after its keyword. -/
def headerEnd? (keyword : Text) (bs : Octets) (i : Nat) : Checked (Option Nat) := do
  let i ← skipWhile Text.isAsciiBlank bs i
  let i ← afterElse keyword bs i
  let i ← afterCondition bs i
  if bs[i]? = some '\x7b' then pure (some (i + 1)) else pure none

/-- The end of the control flow that begins with an `@` at an offset, if it does, in a region that
ends at `stop`. -/
def controlFlowEnd? (source : Text) (start stop : Nat) : Checked (Option Nat) := do
  let bs ← octetsBetween (utf8 source) 0 stop
  let i ← skipWhile Text.isAsciiLetter bs (start + 1)
  let keyword ← textBetween source (start + 1) i
  if keyword = "let".toList then
    let i ← afterDeclaration bs i
    pure (some i)
  else if Template.blockKeywords.contains keyword then headerEnd? keyword bs i
  else pure none

/-! ### Where it ends -/

theorem findIdx?_utf8 {d : Char} (hd : IsAscii d) (t : Text) :
    (utf8 t).findIdx? (· = d) = (Text.cut? [d] t).map fun found => Text.bytes found.1 := by
  induction t with
  | nil => rfl
  | cons c t ih =>
      by_cases hc : c = d
      · subst hc
        have hcut : Text.cut? [c] (c :: t) = some ([], t) :=
          Text.cut?_append_cons List.not_mem_nil t
        rw [utf8_cons, octets_of_isAscii hd, hcut, List.singleton_append, List.findIdx?_cons,
          if_pos (decide_eq_true rfl)]
        rfl
      · have hnone : (octets c).findIdx? (· = d) = none := by
          rw [List.findIdx?_eq_none_iff]
          intro b hb
          rw [decide_eq_false_iff_not]
          rintro rfl
          by_cases hascii : IsAscii c
          · rw [octets_of_isAscii hascii, List.mem_singleton] at hb
            exact hc hb.symm
          · exact not_isAscii_of_mem_octets hascii hb hd
        have hcut : Text.cut? [d] (c :: t) = (Text.cut? [d] t).map (Prod.map ([c] ++ ·) id) :=
          Text.cut?_append_left (s := [c]) (by simpa using Ne.symm hc) [] t
        rw [utf8_cons, List.findIdx?_append, hnone, ih, hcut, Option.none_or, Option.map_map,
          Option.map_map, length_octets]
        congr 1
        funext found
        simp [Nat.add_comm]

theorem afterDeclaration_eq (s t : Text) :
    ∃ taken, t = taken ++ (t.dropWhile (· ≠ ';')).drop 1 ∧
      afterDeclaration (utf8 (s ++ t)) (Text.bytes s) = .ok (Text.bytes (s ++ taken)) := by
  rw [afterDeclaration, octetsBetween_end, ok_bind, findIdx?_utf8 (by decide)]
  by_cases hmem : ';' ∈ t
  · obtain ⟨before, rest, rfl, hbefore⟩ := List.eq_append_cons_of_mem hmem
    refine ⟨before ++ [';'], ?_, ?_⟩
    · rw [Text.dropWhile_ne_append hbefore]
      simp
    · rw [Text.cut?_append_cons hbefore]
      simp [Nat.add_assoc]
      rfl
  · refine ⟨t, ?_, ?_⟩
    · rw [Text.dropWhile_ne_of_not_mem hmem]
      simp
    · rw [Text.cut?_of_not_mem hmem, length_utf8]
      rfl

theorem skipBlanks_eq (s t : Text) :
    ∃ taken, t = taken ++ Template.skipBlanks t ∧
      skipWhile Text.isAsciiBlank (utf8 (s ++ t)) (Text.bytes s) = .ok (Text.bytes (s ++ taken)) :=
  ⟨t.takeWhile Text.isAsciiBlank, List.takeWhile_append_dropWhile.symm,
    skipWhile_utf8 isByteClass_isAsciiBlank s t⟩

theorem afterElse_eq (keyword s t : Text) :
    ∃ taken, t = taken ++ Template.afterElseIf keyword t ∧
      afterElse keyword (utf8 (s ++ t)) (Text.bytes s) = .ok (Text.bytes (s ++ taken)) := by
  rw [afterElse, Template.afterElseIf]
  by_cases hkeyword : keyword = "else".toList
  · rw [if_pos hkeyword, if_pos hkeyword, octetsBetween_end, ok_bind, isPrefixOf_utf8 (by decide)]
    cases hafter : Text.after? "if".toList t with
    | none =>
        refine ⟨[], rfl, ?_⟩
        rw [Text.after?_eq_none_iff, ← List.isPrefixOf_iff_prefix] at hafter
        rw [if_neg hafter, List.append_nil]
        rfl
    | some rest =>
        obtain rfl := Text.eq_append_of_after?_eq_some hafter
        obtain ⟨blanks, hrest, hskip⟩ := skipBlanks_eq (s ++ "if".toList) rest
        refine ⟨"if".toList ++ blanks, by rw [List.append_assoc, ← hrest], ?_⟩
        rw [if_pos (List.isPrefixOf_iff_prefix.mpr (List.prefix_append _ _)), ← List.append_assoc s,
          ← List.append_assoc s, ← hskip]
        rw [Text.bytes_append s]
        rfl
  · rw [if_neg hkeyword, if_neg hkeyword]
    exact ⟨[], rfl, by rw [List.append_nil]; rfl⟩

theorem parensTurn_of_getElem? {bs : Octets} {i : Nat} {b : Char} (h : bs[i]? = some b)
    (hopen : b ≠ '(') (hclose : b ≠ ')') (depth : Nat) :
    parensTurn bs (i, depth) = .ok (.inl (i + 1, depth)) := by
  have hlt : i < bs.length := (List.getElem?_eq_some_iff.mp h).1
  simp only [parensTurn, if_pos hlt, byteAt, h, ok_bind, if_neg hopen, if_neg hclose, pure_eq_ok]

theorem parensTurn_open (s t : Text) (depth : Nat) :
    parensTurn (utf8 (s ++ '(' :: t)) (Text.bytes s, depth)
      = .ok (.inl (Text.bytes (s ++ ['(']), depth + 1)) := by
  rw [parensTurn, if_pos (bytes_lt_length_utf8 s '(' t), byteAt_of_isAscii s (by decide),
    bytes_append_singleton s (by decide)]
  rfl

theorem parensTurn_close (s t : Text) (depth : Nat) :
    parensTurn (utf8 (s ++ ')' :: t)) (Text.bytes s, depth + 1)
      = .ok (if depth = 0 then .inr (Text.bytes (s ++ [')']))
          else .inl (Text.bytes (s ++ [')']), depth)) := by
  rw [parensTurn, if_pos (bytes_lt_length_utf8 s ')' t), byteAt_of_isAscii s (by decide),
    bytes_append_singleton s (by decide)]
  cases depth <;> rfl

/-- At least one parenthesis is open all the time, so that no closing one is too many. -/
theorem iterate_parensTurn (depth : Nat) (s t : Text) :
    ∃ taken, t = taken ++ Template.afterParens depth t ∧
      iterate (fun state => (utf8 (s ++ t)).length - state.1) (parensTurn (utf8 (s ++ t)))
        (Text.bytes s, depth + 1) = .ok (Text.bytes (s ++ taken)) := by
  fun_induction Template.afterParens depth t generalizing s with
  | case1 depth =>
      refine ⟨[], rfl, iterate_done ?_⟩
      rw [parensTurn, if_neg (by simp), List.append_nil]
      rfl
  | case2 depth cs ih =>
      obtain ⟨taken, hcs, hread⟩ := ih (s ++ ['('])
      refine ⟨'(' :: taken, by rw [List.cons_append, ← hcs], ?_⟩
      rw [iterate_next (parensTurn_open s cs (depth + 1)) (left_lt s '(' cs []), List.append_cons,
        hread, ← List.append_cons]
  | case3 cs =>
      exact ⟨[')'], rfl, iterate_done (parensTurn_close s cs 0)⟩
  | case4 depth cs ih =>
      obtain ⟨taken, hcs, hread⟩ := ih (s ++ [')'])
      refine ⟨')' :: taken, by rw [List.cons_append, ← hcs], ?_⟩
      rw [iterate_next (parensTurn_close s cs (depth + 1)) (left_lt s ')' cs []), List.append_cons,
        hread, ← List.append_cons]
  | case5 depth c cs hopen hclose hclose' ih =>
      obtain ⟨taken, hcs, hread⟩ := ih (s ++ [c])
      have hclass := IsByteClass.of_list ['(', ')'] (by decide)
      have hother : c ≠ '(' ∧ c ≠ ')' := by
        refine ⟨hopen, ?_⟩
        cases depth with
        | zero => exact hclose rfl
        | succ depth => exact hclose' depth rfl
      refine ⟨c :: taken, by rw [List.cons_append, ← hcs], ?_⟩
      rw [iterate_char (fun i => (i, depth + 1)) (fun _ => rfl) s c (by simp), List.append_cons, hread,
        ← List.append_cons]
      intro k hk
      obtain ⟨b, hget, hb⟩ := hclass.exists_getElem? s c cs hk
      obtain ⟨hbopen, hbclose⟩ : b ≠ '(' ∧ b ≠ ')' := by simpa [hother] using hb
      exact parensTurn_of_getElem? hget hbopen hbclose _

theorem afterCondition_eq (s t : Text) :
    ∃ taken, t = taken ++ Template.afterCondition t ∧
      afterCondition (utf8 (s ++ t)) (Text.bytes s) = .ok (Text.bytes (s ++ taken)) := by
  have hget := getElem?_eq_some_iff s t (show IsAscii '(' by decide)
  rw [afterCondition]
  unfold Template.afterCondition
  split
  · next cs =>
      obtain ⟨inner, hinner, hparens⟩ := iterate_parensTurn 0 (s ++ ['(']) cs
      obtain ⟨blanks, hblanks, hskip⟩ :=
        skipBlanks_eq (s ++ '(' :: inner) (Template.afterParens 0 cs)
      refine ⟨'(' :: (inner ++ blanks), ?_, ?_⟩
      · rw [List.cons_append, List.append_assoc, ← hblanks, ← hinner]
      · have htext : s ++ '(' :: cs = (s ++ '(' :: inner) ++ Template.afterParens 0 cs := by
          rw [List.append_assoc, List.cons_append, ← hinner]
        rw [← List.append_cons, ← List.append_cons] at hparens
        rw [if_pos (hget.mpr rfl), iterate_next (parensTurn_open s cs 0) (left_lt s '(' cs []),
          hparens, ok_bind, htext, hskip, List.append_assoc, List.cons_append]
  · next hother =>
      have hhead : t.head? ≠ some '(' := by
        intro hhead
        obtain ⟨cs, rfl⟩ := List.head?_eq_some_iff.mp hhead
        exact hother cs rfl
      rw [if_neg fun hyes => hhead (hget.mp hyes)]
      exact ⟨[], rfl, by rw [List.append_nil]; rfl⟩

theorem headerEnd?_eq (keyword s t : Text) :
    headerEnd? keyword (utf8 (s ++ t)) (Text.bytes s)
      = .ok ((match Template.afterCondition (Template.afterElseIf keyword (Template.skipBlanks t)) with
          | '\x7b' :: body => some body
          | _ => none).map fun body => Text.bytes (s ++ t) - Text.bytes body) := by
  obtain ⟨blanks, hblanks, hskip⟩ := skipBlanks_eq s t
  obtain ⟨middle, hmiddle, helse⟩ := afterElse_eq keyword (s ++ blanks) (Template.skipBlanks t)
  obtain ⟨condition, hcondition, hparens⟩ := afterCondition_eq (s ++ blanks ++ middle)
    (Template.afterElseIf keyword (Template.skipBlanks t))
  generalize Template.afterCondition
    (Template.afterElseIf keyword (Template.skipBlanks t)) = rest at *
  rw [hcondition] at hmiddle hparens
  rw [hmiddle] at hblanks helse
  subst hblanks
  have hget := getElem?_eq_some_iff (s ++ blanks ++ middle ++ condition) rest
    (show IsAscii '\x7b' by decide)
  simp only [← List.append_assoc] at hskip helse hparens ⊢
  rw [headerEnd?, hskip, ok_bind, helse, ok_bind, hparens, ok_bind]
  by_cases hhead : rest.head? = some '\x7b'
  · obtain ⟨body, rfl⟩ := List.head?_eq_some_iff.mp hhead
    have hstop : Text.bytes (s ++ blanks ++ middle ++ condition ++ '\x7b' :: body) - Text.bytes body
        = Text.bytes (s ++ blanks ++ middle ++ condition) + 1 := by
      rw [Text.bytes_append _ ('\x7b' :: body), Text.bytes_cons, ← Nat.add_assoc, Nat.add_sub_cancel]
      rfl
    rw [if_pos (hget.mpr rfl), ← hstop]
    rfl
  · rw [if_neg fun hyes => hhead (hget.mp hyes)]
    split
    · exact absurd rfl hhead
    · rfl

/-- Control flow is found from an `@` on if and as far as it stands there. -/
theorem controlFlowEnd?_eq (s t u : Text) :
    controlFlowEnd? (s ++ '@' :: (t ++ u)) (Text.bytes s) (Text.bytes (s ++ '@' :: t))
      = .ok ((Template.afterControlFlow? t).map fun rest =>
        Text.bytes (s ++ '@' :: t) - Text.bytes rest) := by
  have hoctets : octetsBetween (utf8 (s ++ '@' :: (t ++ u))) 0 (Text.bytes (s ++ '@' :: t))
      = .ok (utf8 (s ++ '@' :: t)) := by
    have hslice := octetsBetween_start (s ++ '@' :: t) u
    rwa [List.append_assoc, List.cons_append] at hslice
  have hskip := skipWhile_utf8 isByteClass_isAsciiLetter (s ++ ['@']) t
  have hword := textBetween_append (s ++ ['@']) (t.takeWhile Text.isAsciiLetter)
    (t.dropWhile Text.isAsciiLetter ++ u)
  have ht : t.takeWhile Text.isAsciiLetter ++ t.dropWhile Text.isAsciiLetter = t :=
    List.takeWhile_append_dropWhile
  have hstart : Text.bytes s + 1 = Text.bytes (s ++ ['@']) :=
    (bytes_append_singleton s (by decide)).symm
  rw [controlFlowEnd?, hoctets, ok_bind, hstart, List.append_cons s '@' t, hskip, ok_bind,
    List.append_cons s '@' (t ++ u), Template.afterControlFlow?]
  generalize t.takeWhile Text.isAsciiLetter = keyword at *
  generalize t.dropWhile Text.isAsciiLetter = rest at *
  subst ht
  rw [List.append_assoc keyword, hword, ok_bind, ← List.append_assoc (s ++ ['@'])]
  by_cases hlet : keyword = "let".toList
  · obtain ⟨taken, hrest, hend⟩ := afterDeclaration_eq (s ++ ['@'] ++ keyword) rest
    have hstop : Text.bytes (s ++ ['@'] ++ keyword ++ rest)
        - Text.bytes ((rest.dropWhile (· ≠ ';')).drop 1)
        = Text.bytes (s ++ ['@'] ++ keyword ++ taken) := by
      generalize (rest.dropWhile (· ≠ ';')).drop 1 = left at hrest
      rw [hrest, ← List.append_assoc, Text.bytes_append _ left, Nat.add_sub_cancel]
    rw [if_pos hlet, if_pos hlet, hend, ok_bind, Option.map_some, hstop]
    rfl
  · rw [if_neg hlet, if_neg hlet]
    by_cases hblock : Template.blockKeywords.contains keyword = true
    · rw [if_pos hblock, if_pos hblock]
      exact headerEnd?_eq keyword _ rest
    · rw [if_neg hblock, if_neg hblock]
      rfl

/-! ## Segments -/

/-- Offsets are kept in 32 bits. -/
def narrow (offset : Nat) : Nat :=
  offset % 2 ^ 32

/-- The item of the text between two offsets, if any. -/
def emit (source : Text) (start stop : Nat) : Checked (List Template.Item) := do
  let raw ← textBetween source start stop
  let trimmed := Text.trim raw
  if trimmed.isEmpty then pure []
  else
    let lead ← minus (Text.bytes raw) (Text.bytes (Text.trimStart raw))
    let span : Span := ⟨narrow (start + lead), narrow (start + lead + Text.bytes trimmed)⟩
    if Text.occursIn "\x7b\x7b".toList trimmed then pure [.boundText trimmed span]
    else
      let value ← decodeEntities trimmed
      pure [.text value span]

/-- The offset, the offset where the segment begins, and the items found. -/
def flushTurn (source : Text) (stop : Nat) :
    Nat × Nat × List Template.Item →
      Checked ((Nat × Nat × List Template.Item) ⊕ List Template.Item)
  | (i, start, items) =>
    if i < stop then do
      let rest ← octetsBetween (utf8 source) i stop
      if "\x7b\x7b".toList.isPrefixOf rest then
        let next := match findFrom? source (i + 2) "\x7d\x7d".toList with
          | some close => min (close + 2) stop
          | none => stop
        pure (.inl (next, start, items))
      else
        let b ← byteAt (utf8 source) i
        if b = '@' then
          match ← controlFlowEnd? source i stop with
          | some next =>
            let found ← emit source start i
            pure (.inl (next, next, items ++ found))
          | none => pure (.inl (i + 1, start, items))
        else if b = '\x7d' then
          let found ← emit source start i
          pure (.inl (i + 1, i + 1, items ++ found))
        else pure (.inl (i + 1, start, items))
    else do
      let found ← emit source start stop
      pure (.inr (items ++ found))

/-- The items with those of the rest of a region that ends at `stop`. -/
def flushFrom (source : Text) (stop : Nat) (state : Nat × Nat × List Template.Item) :
    Checked (List Template.Item) :=
  iterate (fun state => stop - state.1) (flushTurn source stop) state

/-- The items with those of the region between two offsets. -/
def flush (source : Text) (start stop : Nat) (items : List Template.Item) :
    Checked (List Template.Item) :=
  flushFrom source stop (start, start, items)

/-! ### The items that are found -/

theorem narrow_of_lt {offset : Nat} (h : offset < 2 ^ 32) : narrow offset = offset :=
  Nat.mod_eq_of_lt h

theorem bytes_trim_le (t : Text) :
    Text.bytes (t.takeWhile Text.isBlank) + Text.bytes (Text.trim t) ≤ Text.bytes t := by
  obtain ⟨rest, ht, _⟩ := Text.eq_append_trim t
  have hbytes := congrArg Text.bytes ht
  rw [Text.bytes_append, Text.bytes_append] at hbytes
  omega

theorem emit_eq (s t u : Text) (hsize : Text.bytes (s ++ (t ++ u)) < 2 ^ 32) :
    emit (s ++ (t ++ u)) (Text.bytes s) (Text.bytes (s ++ t))
      = .ok (Template.Segment.item? ⟨Text.bytes s, t⟩).toList := by
  have hlead : minus (Text.bytes t) (Text.bytes (Text.trimStart t))
      = .ok (Text.bytes (t.takeWhile Text.isBlank)) := by
    have ht : Text.bytes t
        = Text.bytes (t.takeWhile Text.isBlank) + Text.bytes (Text.trimStart t) := by
      rw [← Text.bytes_append, Text.trimStart, List.takeWhile_append_dropWhile]
    rw [minus, ht, if_pos (Nat.le_add_left _ _), Nat.add_sub_cancel]
  have htrim := bytes_trim_le t
  simp only [Text.bytes_append] at hsize
  rw [emit, textBetween_append, ok_bind, Template.Segment.item?]
  dsimp only
  split
  · rfl
  · rw [hlead, ok_bind, narrow_of_lt (by omega), narrow_of_lt (by omega)]
    split
    · rfl
    · rw [decodeEntities_eq]
      rfl

theorem filterMap_cons_toList {α β : Type} (f : α → Option β) (a : α) (l : List α) :
    (a :: l).filterMap f = (f a).toList ++ l.filterMap f := by
  rw [List.filterMap_cons]
  cases f a <;> rfl

theorem filterMap_prepend_cons (start offset : Nat) (seen : Text)
    (segments : List Template.Segment) :
    (Template.prepend start seen (⟨offset, []⟩ :: segments)).filterMap Template.Segment.item?
      = (Template.Segment.item? ⟨start, seen⟩).toList
        ++ segments.filterMap Template.Segment.item? := by
  rw [Template.prepend, List.append_nil, filterMap_cons_toList]

section Turns

variable {source : Text} {stop i start : Nat} {items : List Template.Item}

/-- A turn at a byte where no interpolation begins. -/
theorem flushTurn_of_getElem? {rest : Octets} {b : Char} (hlt : i < stop)
    (hrest : octetsBetween (utf8 source) i stop = .ok rest)
    (hopen : "\x7b\x7b".toList.isPrefixOf rest = false) (hget : (utf8 source)[i]? = some b) :
    flushTurn source stop (i, start, items)
      = if b = '@' then do
          match ← controlFlowEnd? source i stop with
          | some next =>
            let found ← emit source start i
            pure (.inl (next, next, items ++ found))
          | none => pure (.inl (i + 1, start, items))
        else if b = '\x7d' then do
          let found ← emit source start i
          pure (.inl (i + 1, i + 1, items ++ found))
        else pure (.inl (i + 1, start, items)) := by
  rw [flushTurn, if_pos hlt, hrest, ok_bind, hopen, if_neg Bool.false_ne_true, byteAt, hget, ok_bind]

end Turns

theorem isPrefixOf_braces (c : Char) (t : Text) :
    "\x7b\x7b".toList.isPrefixOf (c :: t) = (c = '\x7b' && t.head? = some '\x7b') := by
  cases t with
  | nil => simp [List.isPrefixOf]
  | cons d t => simp [List.isPrefixOf, Bool.beq_eq_decide_eq, eq_comm]

/-- The braces that close an interpolation are looked for behind those that open it. -/
theorem findFrom?_braces (s t : Text) :
    findFrom? (s ++ '\x7b' :: '\x7b' :: t) (Text.bytes s + 2) "\x7d\x7d".toList
      = (Text.cut? "\x7d\x7d".toList t).map
        fun found => Text.bytes (s ++ "\x7b\x7b".toList ++ found.1) := by
  have hstart : Text.bytes (s ++ "\x7b\x7b".toList) = Text.bytes s + 2 := Text.bytes_append s _
  have hfind := findFrom?_append (s ++ "\x7b\x7b".toList) t "\x7d\x7d".toList
  rwa [hstart, List.append_assoc] at hfind

theorem bytes_interpolation (s body : Text) :
    Text.bytes (s ++ "\x7b\x7b".toList ++ body) + 2
      = Text.bytes (s ++ ("\x7b\x7b".toList ++ body ++ "\x7d\x7d".toList)) := by
  rw [← List.append_assoc, ← List.append_assoc, Text.bytes_append _ "\x7d\x7d".toList]
  rfl

/-- The turn where an interpolation begins goes on behind it or, if it is not closed in the region, at
the end of the region. -/
theorem flushTurn_interpolation (s t u : Text) (start : Nat) (items : List Template.Item) :
    flushTurn (s ++ ('\x7b' :: '\x7b' :: t ++ u)) (Text.bytes (s ++ '\x7b' :: '\x7b' :: t))
        (Text.bytes s, start, items)
      = .ok (.inl (match Text.cut? "\x7d\x7d".toList t with
          | some (body, _) => Text.bytes (s ++ ("\x7b\x7b".toList ++ body ++ "\x7d\x7d".toList))
          | none => Text.bytes (s ++ '\x7b' :: '\x7b' :: t), start, items)) := by
  have hlt : Text.bytes s < Text.bytes (s ++ '\x7b' :: '\x7b' :: t) := by
    rw [Text.bytes_append]
    exact Nat.lt_add_of_pos_right (Text.bytes_pos_of_ne_nil (List.cons_ne_nil _ _))
  have hprefix : "\x7b\x7b".toList.isPrefixOf ('\x7b' :: '\x7b' :: t) = true := by
    rw [isPrefixOf_braces]
    rfl
  rw [flushTurn, if_pos hlt, octetsBetween_utf8, ok_bind, isPrefixOf_utf8 (by decide), if_pos hprefix]
  rw [List.cons_append, List.cons_append, findFrom?_braces]
  cases hcut : Text.cut? "\x7d\x7d".toList t with
  | some found =>
      obtain ⟨body, rest⟩ := found
      have ht := Text.eq_append_of_cut?_eq_some hcut
      have hle : Text.bytes (s ++ ("\x7b\x7b".toList ++ body ++ "\x7d\x7d".toList))
          ≤ Text.bytes (s ++ '\x7b' :: '\x7b' :: t) := by
        have hsame : '\x7b' :: '\x7b' :: t
            = "\x7b\x7b".toList ++ body ++ "\x7d\x7d".toList ++ rest := by
          simp [ht]
        rw [hsame, Text.bytes_append, Text.bytes_append s, Text.bytes_append _ rest]
        omega
      rw [Text.cut?_append (by decide) hcut]
      simp only [Option.map_some, bytes_interpolation, Nat.min_eq_left hle]
      rfl
  | none =>
      cases hlater : Text.cut? "\x7d\x7d".toList (t ++ u) with
      | none => rfl
      | some found =>
          obtain ⟨body, rest⟩ := found
          -- The braces that are found later do not end before the end of the region.
          have hle : Text.bytes (s ++ '\x7b' :: '\x7b' :: t)
              ≤ Text.bytes (s ++ "\x7b\x7b".toList ++ body) + 2 := by
            have hnone := (Text.cut?_eq_none_iff (by decide)).mp hcut
            rcases List.append_eq_append_iff.mp (Text.eq_append_of_cut?_eq_some hlater) with
              ⟨more, hbody, _⟩ | ⟨more, ht, _⟩
            · have hbytes := congrArg Text.bytes hbody
              have hbraces : Text.bytes "\x7d\x7d".toList = 2 := rfl
              simp only [Text.bytes_append, hbraces] at hbytes
              have hstart' : Text.bytes (s ++ '\x7b' :: '\x7b' :: t)
                  = Text.bytes (s ++ "\x7b\x7b".toList) + Text.bytes t := by
                rw [← Text.bytes_append, List.append_assoc]
                rfl
              rw [hstart', Text.bytes_append (s ++ "\x7b\x7b".toList)]
              omega
            · exact absurd ⟨body, more, ht.symm⟩ hnone
          simp only [Option.map_some, Nat.min_eq_right hle]
          rfl

/-- A turn at a character of ASCII where no interpolation begins. -/
theorem flushTurn_of_isAscii (s : Text) {c : Char} (hc : IsAscii c) (t u : Text)
    (hopen : (c = '\x7b' && t.head? = some '\x7b') = false) (start : Nat)
    (items : List Template.Item) :
    flushTurn (s ++ (c :: t ++ u)) (Text.bytes (s ++ c :: t)) (Text.bytes s, start, items)
      = if c = '@' then do
          match ← controlFlowEnd? (s ++ (c :: t ++ u)) (Text.bytes s) (Text.bytes (s ++ c :: t)) with
          | some next =>
            let found ← emit (s ++ (c :: t ++ u)) start (Text.bytes s)
            pure (.inl (next, next, items ++ found))
          | none => pure (.inl (Text.bytes (s ++ [c]), start, items))
        else if c = '\x7d' then do
          let found ← emit (s ++ (c :: t ++ u)) start (Text.bytes s)
          pure (.inl (Text.bytes (s ++ [c]), Text.bytes (s ++ [c]), items ++ found))
        else pure (.inl (Text.bytes (s ++ [c]), start, items)) := by
  have hlt : Text.bytes s < Text.bytes (s ++ c :: t) := by
    rw [Text.bytes_append]
    exact Nat.lt_add_of_pos_right (Text.bytes_pos_of_ne_nil (List.cons_ne_nil c t))
  have hget : (utf8 (s ++ (c :: t ++ u)))[Text.bytes s]? = some c := by
    rw [List.cons_append, getElem?_lead, lead_of_isAscii hc]
  rw [bytes_append_singleton s hc]
  exact flushTurn_of_getElem? hlt (octetsBetween_utf8 s (c :: t) u)
    (by rw [isPrefixOf_utf8 (by decide), isPrefixOf_braces, hopen]) hget

/-- A turn at any byte of a character that means nothing in a region. -/
theorem flushTurn_within (s : Text) {c : Char} (t u : Text)
    (hopen : (c = '\x7b' && t.head? = some '\x7b') = false) (hat : c ≠ '@') (hclose : c ≠ '\x7d')
    (start : Nat) (items : List Template.Item) {k : Nat} (hk : k < c.utf8Size) :
    flushTurn (s ++ (c :: t ++ u)) (Text.bytes (s ++ c :: t)) (Text.bytes s + k, start, items)
      = .ok (.inl (Text.bytes s + k + 1, start, items)) := by
  have hclass := IsByteClass.of_list ['@', '\x7d'] (by decide)
  obtain ⟨b, hget, hb⟩ := hclass.exists_getElem? s c (t ++ u) hk
  obtain ⟨hbat, hbclose⟩ : b ≠ '@' ∧ b ≠ '\x7d' := by simpa [hat, hclose] using hb
  have hle : k ≤ Text.bytes (c :: t) := by
    rw [Text.bytes_cons]
    omega
  have hlt : Text.bytes s + k < Text.bytes (s ++ c :: t) := by
    rw [Text.bytes_append, Text.bytes_cons]
    omega
  have hopen' : "\x7b\x7b".toList.isPrefixOf ((utf8 (c :: t)).drop k) = false :=
    isPrefixOf_drop_eq_false (by decide) (by rw [← hopen, ← isPrefixOf_braces]; rfl) hk
  rw [flushTurn_of_getElem? hlt (octetsBetween_drop s (c :: t) u hle) hopen' hget, if_neg hbat,
    if_neg hbclose]
  rfl

/-! ### Steps through a region -/

/-- After `s` comes `t`, the rest of a region that ends at `stop`. -/
def InRegion (source : Text) (stop : Nat) (s t : Text) : Prop :=
  stop = Text.bytes (s ++ t) ∧ s ++ t <+: source

theorem InRegion.append {source : Text} {stop : Nat} {s w t : Text}
    (h : InRegion source stop s (w ++ t)) : InRegion source stop (s ++ w) t := by
  rwa [InRegion, List.append_assoc]

section Steps

variable {source s cs : Text} {stop start : Nat} {items found : List Template.Item}

/-- A step that passes some text of a region. -/
theorem flushFrom_next {w t : Text} {start' : Nat} {items' : List Template.Item}
    (h : InRegion source stop s (w ++ t)) (hw : w ≠ [])
    (hturn : flushTurn source stop (Text.bytes s, start, items)
      = .ok (.inl (Text.bytes (s ++ w), start', items'))) :
    flushFrom source stop (Text.bytes s, start, items)
      = flushFrom source stop (Text.bytes (s ++ w), start', items') := by
  refine iterate_next hturn ?_
  have hpos := Text.bytes_pos_of_ne_nil hw
  simp only [h.1, Text.bytes_append]
  omega

/-- At its end a region gives the item of its last segment. -/
theorem flushFrom_stop (hemit : emit source start stop = .ok found) :
    flushFrom source stop (stop, start, items) = .ok (items ++ found) := by
  refine iterate_done ?_
  rw [flushTurn, if_neg (Nat.lt_irrefl _), hemit]
  rfl

theorem flushFrom_interpolation {c : Char} {body rest : Text}
    (h : InRegion source stop s (c :: cs)) (hopen : (c = '\x7b' && cs.head? = some '\x7b') = true)
    (hcut : Text.cut? "\x7d\x7d".toList (cs.drop 1) = some (body, rest)) :
    flushFrom source stop (Text.bytes s, start, items)
      = flushFrom source stop
        (Text.bytes (s ++ ("\x7b\x7b".toList ++ body ++ "\x7d\x7d".toList)), start, items) := by
  have hcs := Template.eq_interpolation_append hopen hcut
  refine flushFrom_next (hcs ▸ h) (by simp) ?_
  obtain ⟨rfl, hhead⟩ : c = '\x7b' ∧ cs.head? = some '\x7b' := by simpa using hopen
  obtain ⟨cs, rfl⟩ := List.head?_eq_some_iff.mp hhead
  obtain ⟨rfl, after, rfl⟩ := h
  rw [List.drop_one, List.tail_cons] at hcut
  rw [List.append_assoc, flushTurn_interpolation, hcut]

/-- An interpolation that is not closed in the region takes the rest of it. -/
theorem flushFrom_unclosed {c : Char} (h : InRegion source stop s (c :: cs))
    (hopen : (c = '\x7b' && cs.head? = some '\x7b') = true)
    (hcut : Text.cut? "\x7d\x7d".toList (cs.drop 1) = none) :
    flushFrom source stop (Text.bytes s, start, items) = flushFrom source stop (stop, start, items) := by
  have hturn : flushTurn source stop (Text.bytes s, start, items)
      = .ok (.inl (Text.bytes (s ++ c :: cs), start, items)) := by
    obtain ⟨rfl, hhead⟩ : c = '\x7b' ∧ cs.head? = some '\x7b' := by simpa using hopen
    obtain ⟨cs, rfl⟩ := List.head?_eq_some_iff.mp hhead
    obtain ⟨rfl, after, rfl⟩ := h
    rw [List.drop_one, List.tail_cons] at hcut
    rw [List.append_assoc, flushTurn_interpolation, hcut]
  have hnext := flushFrom_next (w := c :: cs) (t := []) (by rwa [List.append_nil])
    (List.cons_ne_nil c cs) hturn
  rwa [← h.1] at hnext

theorem flushFrom_controlFlow {taken rest : Text}
    (h : InRegion source stop s ('@' :: (taken ++ rest)))
    (hcontrol : Template.afterControlFlow? (taken ++ rest) = some rest)
    (hemit : emit source start (Text.bytes s) = .ok found) :
    flushFrom source stop (Text.bytes s, start, items)
      = flushFrom source stop
        (Text.bytes (s ++ '@' :: taken), Text.bytes (s ++ '@' :: taken), items ++ found) := by
  refine flushFrom_next (w := '@' :: taken) h (List.cons_ne_nil _ _) ?_
  obtain ⟨rfl, after, rfl⟩ := h
  have hstop : Text.bytes (s ++ '@' :: (taken ++ rest)) - Text.bytes rest
      = Text.bytes (s ++ '@' :: taken) := by
    rw [← List.cons_append, ← List.append_assoc, bytes_append_sub]
  have hflow := controlFlowEnd?_eq s (taken ++ rest) after
  rw [hcontrol, Option.map_some, hstop, ← List.cons_append] at hflow
  rw [List.append_assoc] at hemit ⊢
  rw [flushTurn_of_isAscii s (by decide) _ _ (by simp), if_pos rfl, hflow, ok_bind, hemit]
  rfl

theorem flushFrom_at (h : InRegion source stop s ('@' :: cs))
    (hcontrol : Template.afterControlFlow? cs = none) :
    flushFrom source stop (Text.bytes s, start, items)
      = flushFrom source stop (Text.bytes (s ++ ['@']), start, items) := by
  refine flushFrom_next (w := ['@']) h (List.cons_ne_nil _ _) ?_
  obtain ⟨rfl, after, rfl⟩ := h
  have hflow := controlFlowEnd?_eq s cs after
  rw [hcontrol, Option.map_none, ← List.cons_append] at hflow
  rw [List.append_assoc, flushTurn_of_isAscii s (by decide) _ _ (by simp), if_pos rfl, hflow]
  rfl

theorem flushFrom_brace (h : InRegion source stop s ('\x7d' :: cs))
    (hemit : emit source start (Text.bytes s) = .ok found) :
    flushFrom source stop (Text.bytes s, start, items)
      = flushFrom source stop
        (Text.bytes (s ++ ['\x7d']), Text.bytes (s ++ ['\x7d']), items ++ found) := by
  refine flushFrom_next (w := ['\x7d']) h (List.cons_ne_nil _ _) ?_
  obtain ⟨rfl, after, rfl⟩ := h
  rw [List.append_assoc] at hemit ⊢
  rw [flushTurn_of_isAscii s (by decide) _ _ (by simp), if_neg (by decide), if_pos rfl, hemit]
  rfl

theorem flushFrom_char {c : Char} (h : InRegion source stop s (c :: cs))
    (hopen : (c = '\x7b' && cs.head? = some '\x7b') = false) (hat : c ≠ '@') (hclose : c ≠ '\x7d') :
    flushFrom source stop (Text.bytes s, start, items)
      = flushFrom source stop (Text.bytes (s ++ [c]), start, items) := by
  obtain ⟨rfl, after, rfl⟩ := h
  rw [List.append_assoc]
  exact iterate_char (fun i => (i, start, items)) (fun _ => rfl) s c (by simp)
    fun _ hk => flushTurn_within s cs after hopen hat hclose start items hk

end Steps

/-- The rest `t` of a region, with the texts `before` the segment that the cursor is in and `seen` of
that segment. -/
theorem flushFrom_eq {source : Text} (hsize : Text.bytes source < 2 ^ 32) {stop offset : Nat}
    (before seen : Text) {t : Text} (h : InRegion source stop (before ++ seen) t)
    (hoffset : offset = Text.bytes (before ++ seen)) (items : List Template.Item) :
    flushFrom source stop (Text.bytes (before ++ seen), Text.bytes before, items)
      = .ok (items ++ (Template.prepend (Text.bytes before) seen
          (Template.segments offset t)).filterMap Template.Segment.item?) := by
  have hemit : ∀ {before seen : Text}, before ++ seen <+: source →
      emit source (Text.bytes before) (Text.bytes (before ++ seen))
        = .ok (Template.Segment.item? ⟨Text.bytes before, seen⟩).toList := by
    rintro before seen ⟨after, rfl⟩
    rw [List.append_assoc] at hsize ⊢
    exact emit_eq before seen after hsize
  have hseen : ∀ {before seen t : Text}, InRegion source stop (before ++ seen) t →
      before ++ seen <+: source := fun h => (List.prefix_append _ _).trans h.2
  fun_induction Template.segments offset t generalizing before seen items with
  | case1 offset =>
      have hstop := h.1
      rw [List.append_nil] at hstop
      rw [← hstop, flushFrom_stop (hstop ▸ hemit (hseen h)), Template.prepend, List.append_nil]
      simp only [filterMap_cons_toList, List.filterMap_nil, List.append_nil]
  | case2 offset c cs hopen body rest hcut interpolation =>
      rename_i ih
      have hrest := (Template.eq_interpolation_append hopen hcut ▸ h).append
      rw [List.append_assoc before] at hrest
      rw [flushFrom_interpolation h hopen hcut, List.append_assoc before, Template.prepend_prepend]
      exact ih before _ hrest (by rw [hoffset, ← Text.bytes_append, List.append_assoc]) items
  | case3 offset c cs hopen hcut =>
      have hlast := hemit (List.append_assoc before seen (c :: cs) ▸ h.2)
      rw [← List.append_assoc, ← h.1] at hlast
      rw [flushFrom_unclosed h hopen hcut, flushFrom_stop hlast, Template.prepend]
      simp only [filterMap_cons_toList, List.filterMap_nil, List.append_nil]
  | case4 offset cs rest hcontrol hopen ih =>
      obtain ⟨taken, rfl⟩ := Template.afterControlFlow?_suffix hcontrol
      have hrest : InRegion source stop (before ++ seen ++ '@' :: taken) rest :=
        InRegion.append (w := '@' :: taken) h
      have hnext : offset + (Text.bytes ('@' :: (taken ++ rest)) - Text.bytes rest)
          = Text.bytes (before ++ seen ++ '@' :: taken) := by
        rw [← List.cons_append, bytes_append_sub, hoffset, ← Text.bytes_append]
      rw [flushFrom_controlFlow h hcontrol (hemit (hseen h)), filterMap_prepend_cons,
        ← List.append_assoc items, hnext]
      rw [hnext] at ih
      have hread := ih (before ++ seen ++ '@' :: taken) [] (by rwa [List.append_nil])
        (by rw [List.append_nil])
      simp only [List.append_nil, Template.prepend_nil_segments] at hread
      exact hread _
  | case5 offset cs hcontrol hopen ih =>
      have hrest : InRegion source stop (before ++ seen ++ ['@']) cs :=
        InRegion.append (w := ['@']) h
      rw [List.append_assoc before] at hrest
      rw [flushFrom_at h hcontrol, List.append_assoc before, Template.prepend_prepend]
      exact ih before _ hrest (by simp [hoffset, Nat.add_assoc]) items
  | case6 offset cs hopen hat ih =>
      have hrest : InRegion source stop (before ++ seen ++ ['\x7d']) cs :=
        InRegion.append (w := ['\x7d']) h
      have hnext : offset + '\x7d'.utf8Size = Text.bytes (before ++ seen ++ ['\x7d']) := by
        rw [hoffset, Text.bytes_append _ ['\x7d']]
        rfl
      rw [flushFrom_brace h (hemit (hseen h)), filterMap_prepend_cons, ← List.append_assoc items, hnext]
      rw [hnext] at ih
      have hread := ih (before ++ seen ++ ['\x7d']) [] (by rwa [List.append_nil])
        (by rw [List.append_nil])
      simp only [List.append_nil, Template.prepend_nil_segments] at hread
      exact hread _
  | case7 offset c cs hopen hat hclose ih =>
      have hrest : InRegion source stop (before ++ seen ++ [c]) cs := InRegion.append (w := [c]) h
      rw [List.append_assoc before] at hrest
      rw [flushFrom_char h (Bool.eq_false_iff.mpr hopen) hat hclose, List.append_assoc before,
        Template.prepend_prepend]
      exact ih before _ hrest (by simp [hoffset, Nat.add_assoc]) items

theorem flush_eq (before region after : Text)
    (hsize : Text.bytes (before ++ (region ++ after)) < 2 ^ 32) (items : List Template.Item) :
    flush (before ++ (region ++ after)) (Text.bytes before) (Text.bytes (before ++ region)) items
      = .ok (items ++ Template.regionItems (Text.bytes before) region) := by
  have hregion : InRegion (before ++ (region ++ after)) (Text.bytes (before ++ region))
      (before ++ []) region := by
    rw [List.append_nil, ← List.append_assoc]
    exact ⟨rfl, List.prefix_append _ _⟩
  have hread := flushFrom_eq hsize before [] hregion rfl items
  rw [List.append_nil, Template.prepend_nil_segments] at hread
  exact hread

end KeyLint.Cursor
