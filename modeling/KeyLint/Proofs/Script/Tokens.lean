import KeyLint.Proofs.Text
import KeyLint.Script.Token

/-!
# Tokens take up text

Nothing that is read along a script leads back: every place that a token, a blank or an escape leads
to is at least as far as the place where it was read, and farther for a token.
-/

namespace KeyLint.Script

/-! ## Places -/

namespace Place

theorem offset_le_drop (n : Nat) (here : Place) : here.offset ≤ (here.drop n).offset :=
  Nat.le_add_right ..

theorem offset_lt_drop {here : Place} (h : here.rest ≠ []) (n : Nat) :
    here.offset < (here.drop (n + 1)).offset := by
  refine Nat.lt_add_of_pos_right (Text.bytes_pos_of_ne_nil ?_)
  simpa using h

theorem offset_le_dropWhile (p : Char → Bool) (here : Place) :
    here.offset ≤ (here.dropWhile p).offset :=
  Nat.le_add_right ..

theorem offset_lt_dropWhile {p : Char → Bool} {here : Place} (h : here.rest.head?.any p) :
    here.offset < (here.dropWhile p).offset := by
  refine Nat.lt_add_of_pos_right (Text.bytes_pos_of_ne_nil ?_)
  cases hrest : here.rest with
  | nil => simp [hrest] at h
  | cons c cs =>
      have hc : p c = true := by simpa [hrest] using h
      simp [hc]

theorem offset_lt_of_after? {word : Text} {here next : Place} (hword : word ≠ [])
    (h : here.after? word = some next) : here.offset < next.offset := by
  obtain ⟨rest, _, rfl⟩ := Option.map_eq_some_iff.mp h
  exact Nat.lt_add_of_pos_right (Text.bytes_pos_of_ne_nil hword)

end Place

/-! ## Blanks -/

theorem offset_le_skipBlanks (fuel : Nat) (newline : Bool) (here : Place) :
    here.offset ≤ (skipBlanks fuel newline here).2.offset := by
  induction fuel generalizing newline here with
  | zero => exact Nat.le_refl _
  | succ fuel ih =>
      have hline := Place.offset_le_dropWhile (fun c => !isLineEnd c) here
      rw [skipBlanks]
      split
      · exact Nat.le_trans hline (ih ..)
      · exact Nat.le_trans hline (ih ..)
      · split
        · exact Nat.le_trans hline (ih ..)
        · exact Nat.le_refl _
      · split
        · next comment rest _ =>
            refine Nat.le_trans ?_ (ih ..)
            show here.offset ≤ here.offset + Text.bytes comment + 4
            omega
        · exact Nat.le_add_right ..
      · split
        · exact Nat.le_trans (here.offset_le_drop 1) (ih ..)
        · exact Nat.le_refl _
      · exact Nat.le_refl _

/-! ## Escapes and strings -/

/-- What may have been read ends at an offset or after it. -/
def LeadsTo {α : Type} (offset : Nat) (next : α → Place) (read? : Option α) : Prop :=
  ∀ read ∈ read?, offset ≤ (next read).offset

namespace LeadsTo

variable {α β : Type} {offset : Nat} {next : α → Place}

theorem none : LeadsTo offset next none := nofun

theorem some {a : α} (h : offset ≤ (next a).offset) : LeadsTo offset next (some a) := by
  intro read hread
  cases hread
  exact h

theorem ite {p : Prop} [Decidable p] {read? other? : Option α} (h : LeadsTo offset next read?)
    (hother : LeadsTo offset next other?) : LeadsTo offset next (if p then read? else other?) := by
  split
  · exact h
  · exact hother

theorem map {read? : Option β} {f : β → α} (h : ∀ a ∈ read?, offset ≤ (next (f a)).offset) :
    LeadsTo offset next (read?.map f) := by
  intro read hread
  obtain ⟨a, ha, rfl⟩ := Option.map_eq_some_iff.mp hread
  exact h a ha

end LeadsTo

theorem leadsTo_unicodeEscape? (here : Place) :
    LeadsTo here.offset Prod.snd (unicodeEscape? here) := by
  unfold unicodeEscape?
  split
  · dsimp only
    split
    · exact .ite (.some (here.offset_le_drop _)) .none
    · exact .none
  · exact .map fun _ _ => here.offset_le_drop 4
  · exact .none

theorem leadsTo_hexEscape? (here : Place) :
    LeadsTo here.offset Prod.snd (hexEscape? here) := by
  unfold hexEscape?
  split
  · exact .map fun _ _ => here.offset_le_drop 2
  · exact .none

theorem leadsTo_escape? (inTemplate : Bool) (here : Place) :
    LeadsTo here.offset Prod.snd (escape? inTemplate here) := by
  unfold escape?
  split
  · exact .none
  · have hdrop (units : List Nat) (n : Nat) :
        LeadsTo here.offset Prod.snd (some (units, here.drop n)) := .some (here.offset_le_drop n)
    have hnext {next : Place} (hle : (here.drop 1).offset ≤ next.offset) :
        here.offset ≤ next.offset := Nat.le_trans (here.offset_le_drop 1) hle
    refine .ite (hdrop _ _) (.ite (hdrop _ _) (.ite (hdrop _ _) (.ite (hdrop _ _) ?_)))
    refine .ite (hdrop _ _) (.ite (hdrop _ _) (.ite (hdrop _ _) (.ite (hdrop _ _) ?_)))
    refine .ite (.map fun read hread => hnext (leadsTo_hexEscape? _ read hread)) ?_
    refine .ite (.map fun read hread => hnext (leadsTo_unicodeEscape? _ read hread)) ?_
    refine .ite (.ite (hdrop _ _) .none) ?_
    exact .ite (.map fun _ _ => here.offset_le_drop _) (hdrop _ _)

theorem leadsTo_stringUnits? (quote : Char) (fuel : Nat) (here : Place) :
    LeadsTo here.offset Prod.snd (stringUnits? quote fuel here) := by
  induction fuel generalizing here with
  | zero => exact .none
  | succ fuel ih =>
      have hdrop := here.offset_le_drop 1
      rw [stringUnits?]
      split
      · exact .some (Nat.le_refl _)
      · refine .ite (.some hdrop) (.ite (.some (Nat.le_refl _)) (.ite ?_ ?_))
        · split
          · exact .none
          · next units place hescape =>
              have hplace := Nat.le_trans hdrop (leadsTo_escape? _ _ _ hescape)
              exact .map fun read hread => Nat.le_trans hplace (ih place read hread)
        · exact .map fun read hread => Nat.le_trans hdrop (ih _ read hread)

theorem leadsTo_readPiece? (fuel : Nat) (here : Place) :
    LeadsTo here.offset Piece.next (readPiece? fuel here) := by
  induction fuel generalizing here with
  | zero => exact .none
  | succ fuel ih =>
      have hmore {place : Place} (hplace : here.offset ≤ place.offset) (units : Option (List Nat)) :
          LeadsTo here.offset Piece.next ((readPiece? fuel place).map (Piece.prepend units)) :=
        .map fun piece hpiece => Nat.le_trans hplace (ih place piece hpiece)
      rw [readPiece?]
      split
      · exact .none
      · exact .some (here.offset_le_drop 1)
      · exact .some (here.offset_le_drop 2)
      · exact hmore (here.offset_le_drop 2) _
      · exact hmore (here.offset_le_drop 1) _
      · split
        · next hescape =>
            exact hmore (Nat.le_trans (here.offset_le_drop 1) (leadsTo_escape? _ _ _ hescape)) _
        · exact hmore (here.offset_le_drop 2) _
      · exact hmore (here.offset_le_drop 1) _

/-! ## Regular expressions -/

theorem leadsTo_afterRegexBody? (fuel : Nat) (inClass : Bool) (here : Place) :
    LeadsTo here.offset id (afterRegexBody? fuel inClass here) := by
  induction fuel generalizing here inClass with
  | zero => exact .none
  | succ fuel ih =>
      have hmore (n : Nat) (inClass : Bool) :
          LeadsTo here.offset id (afterRegexBody? fuel inClass (here.drop n)) :=
        fun next hnext => Nat.le_trans (here.offset_le_drop n) (ih inClass _ next hnext)
      rw [afterRegexBody?]
      split
      · exact .none
      · exact .ite .none (hmore 2 _)
      · exact .ite .none (.ite (.some (here.offset_le_drop 1)) (hmore 1 _))

theorem leadsTo_afterRegex? (fuel : Nat) (here : Place) :
    LeadsTo here.offset id (afterRegex? fuel here) :=
  .map fun body hbody => Nat.le_trans (here.offset_le_drop 1)
    (Nat.le_trans (leadsTo_afterRegexBody? _ _ _ body hbody) (body.offset_le_dropWhile _))

/-! ## Names and numbers -/

/-- A name has a first character. -/
theorem leadsTo_readName (fuel : Nat) (first : Bool) (here : Place) :
    LeadsTo (here.offset + first.toNat) (·.2.2) (readName fuel first here) := by
  induction fuel generalizing here first with
  | zero => exact .none
  | succ fuel ih =>
      have hmore {place : Place} (hplace : here.offset < place.offset)
          (f : Text × Bool × Place → Text × Bool) :
          LeadsTo (here.offset + first.toNat) (·.2.2)
            ((readName fuel false place).map fun read => ((f read).1, (f read).2, read.2.2)) := by
        refine .map fun read hread => ?_
        have hnext := ih false place read hread
        have hfirst := first.toNat_le
        simp only [Bool.toNat_false] at hnext
        show here.offset + first.toNat ≤ read.2.2.offset
        omega
      have hend : LeadsTo (here.offset + first.toNat) (·.2.2)
          (if first then none else some (([] : Text), true, here)) := by
        cases first with
        | true => exact .none
        | false => exact .some (Nat.le_refl _)
      rw [readName]
      split
      · next hrest =>
          split
          · next hescape =>
              have hlt := @Place.offset_lt_drop here (by simp [hrest]) 1
              have hle := leadsTo_unicodeEscape? _ _ hescape
              exact .ite (hmore (Nat.lt_of_lt_of_le hlt hle) fun read => (_ :: read.1, false)) .none
          · exact .none
      · exact .none
      · next hrest =>
          have hlt := @Place.offset_lt_drop here (by simp [hrest]) 0
          exact .ite (hmore hlt fun read => (_ :: read.1, read.2.1)) hend
      · exact hend

theorem offset_le_afterExponent (here : Place) : here.offset ≤ (afterExponent here).offset := by
  unfold afterExponent
  split
  · split
    · exact Nat.le_refl _
    split
    · exact Nat.le_trans (here.offset_le_drop 1) (Place.offset_le_dropWhile ..)
    split
    · exact Nat.le_trans (here.offset_le_drop 2) (Place.offset_le_dropWhile ..)
    · exact Nat.le_refl _
  · exact Nat.le_refl _

theorem offset_le_afterBigMark (here : Place) : here.offset ≤ (afterBigMark here).offset := by
  unfold afterBigMark
  split
  · exact here.offset_le_drop 1
  · exact Nat.le_refl _

theorem offset_le_afterFraction (here : Place) : here.offset ≤ (afterFraction here).offset := by
  unfold afterFraction
  split
  · exact Nat.le_trans (here.offset_le_drop 1) (Place.offset_le_dropWhile ..)
  · exact Nat.le_refl _

/-- A number begins with a digit, or with a point. -/
theorem offset_lt_afterDecimal {here : Place}
    (h : here.rest.head?.any isDigitPart ∨ here.rest.head? = some '.') :
    here.offset < (afterDecimal here).offset := by
  have hfraction := offset_le_afterFraction (here.dropWhile isDigitPart)
  have hexponent := offset_le_afterExponent (afterFraction (here.dropWhile isDigitPart))
  have hmark := offset_le_afterBigMark (here.dropWhile isDigitPart)
  unfold afterDecimal
  dsimp only
  rcases h with hdigit | hpoint
  · have hlt := Place.offset_lt_dropWhile hdigit
    split
    · exact hlt
    split <;> omega
  · obtain ⟨offset, rest⟩ := here
    obtain ⟨cs, rfl⟩ := List.head?_eq_some_iff.mp hpoint
    have hdigit : isDigitPart '.' = false := by decide
    have hwhole : Place.dropWhile isDigitPart ⟨offset, '.' :: cs⟩ = ⟨offset, '.' :: cs⟩ := by
      simp [Place.dropWhile, hdigit]
    have hlt : offset < (afterFraction ⟨offset, '.' :: cs⟩).offset :=
      Nat.lt_of_lt_of_le (@Place.offset_lt_drop ⟨offset, '.' :: cs⟩ (List.cons_ne_nil '.' cs) 0)
        (Place.offset_le_dropWhile ..)
    simp only [hwhole] at hexponent ⊢
    rw [List.takeWhile_cons_of_neg (by simp [hdigit])]
    have hne : afterExponent (afterFraction ⟨offset, '.' :: cs⟩) ≠ ⟨offset, '.' :: cs⟩ := by
      intro heq
      rw [heq] at hexponent
      exact absurd hexponent (Nat.not_le_of_lt hlt)
    simpa [hne] using Nat.lt_of_lt_of_le hlt hexponent

theorem leadsTo_afterNumber? {here : Place}
    (h : here.rest.head?.any isDigitPart ∨ here.rest.head? = some '.') :
    LeadsTo (here.offset + 1) id (afterNumber? here) := by
  unfold afterNumber?
  split
  · next hrest =>
      split
      · exact .some (offset_lt_afterDecimal h)
      · refine .ite (.some ?_) .none
        exact Nat.le_trans (Place.offset_lt_drop (by simp [hrest]) 1)
          (Nat.le_trans (Place.offset_le_dropWhile ..) (offset_le_afterBigMark _))
  · exact .some (offset_lt_afterDecimal h)

/-! ## All tokens -/

/-- A token that stands for some of the text. -/
def Token.isReal : Token → Bool
  | .endOfText | .bad => false
  | _ => true

/-- A token and the place after it, which is not before the place of the token, and after it if the
token is a real one. -/
def Passes (here : Place) (read : Token × Place) : Prop :=
  here.offset ≤ read.2.offset ∧ (read.1.isReal → here.offset < read.2.offset)

theorem Passes.of_lt {here next : Place} {token : Token} (h : here.offset < next.offset) :
    Passes here (token, next) :=
  ⟨Nat.le_of_lt h, fun _ => h⟩

theorem Passes.bad {here next : Place} (h : here.offset ≤ next.offset) : Passes here (.bad, next) :=
  ⟨h, nofun⟩

theorem passes_readString (fuel : Nat) (quote : Char) {here : Place} (h : here.rest ≠ []) :
    Passes here (readString fuel quote (here.drop 1)) := by
  have hlt := Place.offset_lt_drop h 0
  unfold readString
  split
  · next hunits => exact .of_lt (Nat.lt_of_lt_of_le hlt (leadsTo_stringUnits? _ _ _ _ hunits))
  · exact .bad (Nat.le_of_lt hlt)

theorem passes_readNumber {here : Place}
    (h : here.rest.head?.any isDigitPart ∨ here.rest.head? = some '.') :
    Passes here (readNumber here) := by
  unfold readNumber
  split
  · exact .bad (Nat.le_refl _)
  · next hnext =>
      split
      · exact .bad (Nat.le_refl _)
      · exact .of_lt (leadsTo_afterNumber? h _ hnext)

theorem passes_readSign (here : Place) : Passes here (readSign here) := by
  unfold readSign
  split
  · next hrest =>
      split
      · exact .of_lt (Place.offset_lt_drop (by simp [hrest]) 0)
      · exact .of_lt (Place.offset_lt_drop (by simp [hrest]) 1)
  · split
    · next sign next hfind =>
        obtain ⟨sign', hmem, hsign⟩ := List.exists_of_findSome?_eq_some hfind
        obtain ⟨place, hplace, heq⟩ := Option.map_eq_some_iff.mp hsign
        cases heq
        have hne : ∀ sign ∈ signs, sign.toList ≠ [] := by decide
        exact .of_lt (Place.offset_lt_of_after? (hne _ hmem) hplace)
    · exact .bad (Nat.le_refl _)

/-- Every token but the end of the text takes up some of it. -/
theorem passes_readToken (fuel : Nat) (here : Place) : Passes here (readToken fuel here) := by
  unfold readToken
  split
  · exact ⟨Nat.le_refl _, fun hreal => absurd hreal Bool.false_ne_true⟩
  · next c cs hrest =>
      have hne : here.rest ≠ [] := by simp [hrest]
      split
      · exact passes_readString _ _ hne
      split
      · next hnumber =>
          refine passes_readNumber ?_
          simp only [hrest, List.head?_cons, Option.any_some, isDigitPart, Option.some.injEq]
          grind
      split
      · split
        · next hname =>
            have hnext := leadsTo_readName _ _ _ _ hname
            exact .of_lt (Nat.lt_of_lt_of_le (Place.offset_lt_drop hne 0)
              (Nat.le_trans (Nat.le_add_right ..) hnext))
        · exact .bad (Nat.le_refl _)
      split
      · split
        · next hname => exact .of_lt (leadsTo_readName _ _ _ _ hname)
        · exact .bad (Nat.le_refl _)
      · exact passes_readSign here

end KeyLint.Script
