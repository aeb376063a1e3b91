import KeyLint.Proofs.Pattern.Acceptance
import KeyLint.Proofs.Wording.Shapes

/-!
# Which texts are reported

`Wording.Applies` says for each exemption when it applies to a text. A text is reported exactly if
none applies, and otherwise exempted by the first one (`exemption_is_first`). Blanks around a text
change nothing (`exemption_between_blanks`): the tests that see the text as it stands look for
letters and for words of a pattern, and neither has blanks in it.
-/

namespace KeyLint

namespace Exemption

/-- The exemptions in the order in which they are tried. -/
def order : List Exemption :=
  [.noAlphabetic, .ignorePattern, .separator, .email, .reservedWord, .technicalPrefix,
   .translationKey]

/-- The place of an exemption in the order. -/
def rank (e : Exemption) : Nat :=
  order.idxOf e

theorem mem_order (e : Exemption) : e ∈ order := by
  cases e <;> decide

theorem pairwise_order : order.Pairwise fun e e' => e.rank < e'.rank := by
  decide

theorem mem_before_iff {before after : List Exemption} {e : Exemption}
    (h : order = before ++ e :: after) {e' : Exemption} : e' ∈ before ↔ e'.rank < e.rank := by
  have hpairwise := pairwise_order
  rw [h, List.pairwise_append, List.pairwise_cons] at hpairwise
  obtain ⟨_, ⟨hafter, _⟩, hbefore⟩ := hpairwise
  constructor
  · intro hmem
    exact hbefore e' hmem e List.mem_cons_self
  · intro hlt
    have hmem := mem_order e'
    rw [h, List.mem_append, List.mem_cons] at hmem
    rcases hmem with hmem | rfl | hmem
    · exact hmem
    · exact absurd hlt (Nat.lt_irrefl _)
    · exact absurd hlt (Nat.lt_asymm (hafter e' hmem))

end Exemption

namespace Wording

/-! ## Conditions -/

/-- An exemption applies to a text. The first two see the text as it stands, the others without the
blanks at its ends. -/
def Applies (ignore : Option Pattern) (t : Text) : Exemption → Prop
  | .noAlphabetic => ¬ ∃ c ∈ t, Text.isLetter c = true
  | .ignorePattern => ∃ pattern ∈ ignore, ∃ word ∈ pattern.words, word <:+: t
  | .separator => '_' ∈ Text.trim t ∨ '-' ∈ Text.trim t
  | .email => ∃ run, Text.IsRun Text.isBlank run (Text.trim t) ∧ HasAddressForm run
  | .reservedWord => (Text.trim t).map Char.toLower ∈
      ["xlsx".toList, "xlx".toList, "csv".toList, "pdf".toList, "png".toList]
  | .technicalPrefix =>
      "/".toList <+: Text.trim t ∨ "#".toList <+: Text.trim t ∨
        "http://".toList <+: (Text.trim t).map fold ∨ "https://".toList <+: (Text.trim t).map fold
  | .translationKey => HasKeyForm (Text.trim t)

theorem find?_cons_eq_ite {α : Type} (p : α → Bool) (a : α) (as : List α) :
    (a :: as).find? p = if p a = true then some a else as.find? p := by
  cases h : p a <;> simp [h]

section

variable {ignore : Option Pattern} {t : Text}

open Classical in
theorem exemption?_eq_find? (ignore : Option Pattern) (t : Text) :
    exemption? ignore t = Exemption.order.find? fun e => decide (Applies ignore t e) := by
  have hletter : (!Text.hasLetter t) = true ↔ Applies ignore t .noAlphabetic := by
    simp [Text.hasLetter, Applies]
  have hignore : (ignore.any fun pattern => pattern.occursIn t) = true ↔
      Applies ignore t .ignorePattern := by
    simp [Applies, Option.any_eq_true, Pattern.occursIn_iff]
  have hseparator : ((Text.trim t).contains '_' || (Text.trim t).contains '-') = true ↔
      Applies ignore t .separator := by
    simp [Applies]
  have haddress : hasAddress (Text.trim t) = true ↔ Applies ignore t .email := hasAddress_iff
  have hreserved : (reservedWords.any fun word =>
      Text.eqIgnoringAsciiCase word (Text.trim t)) = true ↔ Applies ignore t .reservedWord :=
    reservedWords_iff
  simp only [exemption?, Exemption.order, find?_cons_eq_ite, List.find?_nil, hletter, hignore,
    hseparator, haddress, hreserved, decide_eq_true_eq]
  -- Technical beginnings and keys with `_` or `-` come too late to count.
  by_cases hsep : Applies ignore t .separator
  · simp only [hsep, if_true]
  · obtain ⟨hunderscore, hhyphen⟩ := not_or.mp hsep
    have htechnical : (technicalStarts.any fun start => startsFolded start (Text.trim t)) = true ↔
        Applies ignore t .technicalPrefix := technicalStarts_iff hunderscore hhyphen
    have hkey : isKeyShaped (Text.trim t) = true ↔ Applies ignore t .translationKey :=
      isKeyShaped_iff hunderscore
    simp only [htechnical, hkey]

theorem exemption?_eq_none_iff :
    exemption? ignore t = none ↔ ∀ e, ¬ Applies ignore t e := by
  rw [exemption?_eq_find?, List.find?_eq_none]
  simp only [decide_eq_true_eq]
  exact ⟨fun h e => h e e.mem_order, fun h e _ => h e⟩

theorem exemption?_eq_some_iff {e : Exemption} :
    exemption? ignore t = some e ↔
      Applies ignore t e ∧ ∀ e', e'.rank < e.rank → ¬ Applies ignore t e' := by
  rw [exemption?_eq_find?, List.find?_eq_some_iff_append]
  simp only [decide_eq_true_eq, Bool.not_eq_true', decide_eq_false_iff_not]
  refine and_congr_right fun _ => ?_
  constructor
  · rintro ⟨before, after, horder, hno⟩ e' hlt
    exact hno e' ((Exemption.mem_before_iff horder).mpr hlt)
  · intro hno
    obtain ⟨before, after, horder⟩ := List.append_of_mem e.mem_order
    refine ⟨before, after, horder, fun e' hmem => ?_⟩
    exact hno e' ((Exemption.mem_before_iff horder).mp hmem)

theorem not_mem_of_exemption? {e : Exemption} (h : exemption? ignore t = some e)
    (he : Exemption.separator.rank < e.rank) : '_' ∉ Text.trim t ∧ '-' ∉ Text.trim t :=
  not_or.mp ((exemption?_eq_some_iff.mp h).2 .separator he)

end

/-- A text is reported exactly if no exemption applies to it, and otherwise exempted by the first
one that does. So a technical beginning with `_` or `-` in it exempts nothing, nor does a key with
underscores. -/
theorem exemption_is_first (ignore : Option Pattern) (t : Text) :
    (exemption? ignore t = none ↔ ∀ e, ¬ Applies ignore t e) ∧
    (∀ e, exemption? ignore t = some e ↔
      Applies ignore t e ∧ ∀ e', e'.rank < e.rank → ¬ Applies ignore t e') ∧
    (exemption? ignore t = some .technicalPrefix →
      ∀ start ∈ technicalStarts, '_' ∈ start ∨ '-' ∈ start →
        startsFolded start (Text.trim t) = false) ∧
    (exemption? ignore t = some .translationKey → '_' ∉ Text.trim t) := by
  refine ⟨exemption?_eq_none_iff, fun _ => exemption?_eq_some_iff, ?_, ?_⟩
  · intro h start hstart hin
    obtain ⟨hunderscore, hhyphen⟩ := not_mem_of_exemption? h (by decide)
    refine Bool.eq_false_iff.mpr fun hfolded => ?_
    have hpre := (startsFolded_iff fun _ => ascii_of_mem_technicalStarts hstart).mp hfolded
    rcases hin with hin | hin
    · exact hunderscore (mem_of_mem_map_fold (hpre.subset hin) (by decide))
    · exact hhyphen (mem_of_mem_map_fold (hpre.subset hin) (by decide))
  · intro h
    exact (not_mem_of_exemption? h (by decide)).1

example : exemption? none "  HTTP\u017f://example".toList = some .technicalPrefix := by
  decide +kernel

/-! ## Blanks around a text -/

theorem isLetter_of_isBlank {c : Char} (h : Text.isBlank c = true) : Text.isLetter c = false :=
  Text.eq_false_of_isBlank (by decide +kernel) h

theorem not_isBlank_of_isLiteral {c : Char} (h : Pattern.isLiteral c = true) :
    Text.isBlank c = false := by
  refine Bool.eq_false_iff.mpr fun hblank => ?_
  have hno : Pattern.isLiteral c = false := Text.eq_false_of_isBlank (by decide +kernel) hblank
  rw [h] at hno
  cases hno

/-- The words of a pattern that was read are not empty and hold no blanks. -/
theorem words_of_parse {source : Text} {p : Pattern} (h : Pattern.parse source = .ok p) {w : Text}
    (hw : w ∈ p.words) : w ≠ [] ∧ ∀ c ∈ w, Text.isBlank c = false := by
  obtain ⟨_, _, d, _, _, hwords⟩ := Pattern.derivation_of_parse h
  rw [hwords] at hw
  refine ⟨d.ne_nil_of_mem_words w hw, fun c hc => ?_⟩
  exact not_isBlank_of_isLiteral (d.isLiteral_of_mem_words w hw c hc)

section

variable {before after : Text} (hbefore : ∀ c ∈ before, Text.isBlank c = true)
  (hafter : ∀ c ∈ after, Text.isBlank c = true)

include hbefore hafter

theorem hasLetter_between_blanks (t : Text) :
    Text.hasLetter (before ++ t ++ after) = Text.hasLetter t := by
  have hno {blanks : Text} (h : ∀ c ∈ blanks, Text.isBlank c = true) :
      blanks.any Text.isLetter = false :=
    List.any_eq_false.mpr fun c hc => by simp [isLetter_of_isBlank (h c hc)]
  rw [Text.hasLetter, List.any_append, List.any_append, hno hbefore, hno hafter, Bool.false_or,
    Bool.or_false, Text.hasLetter]

theorem occursIn_between_blanks {source : Text} {p : Pattern} (h : Pattern.parse source = .ok p)
    (t : Text) : p.occursIn (before ++ t ++ after) = p.occursIn t := by
  rw [Bool.eq_iff_iff, Pattern.occursIn_iff, Pattern.occursIn_iff]
  refine exists_congr fun w => and_congr_right fun hw => ?_
  obtain ⟨hne, hplain⟩ := words_of_parse h hw
  exact Text.infix_append_blanks_iff hne hplain hbefore hafter t

end

/-- Blanks around a text do not change whether and why it is exempted, whatever pattern was read for
texts to ignore. -/
theorem exemption_between_blanks {ignore : Option Pattern}
    (hignore : ∀ p ∈ ignore, ∃ source, Pattern.parse source = .ok p) {before after : Text}
    (hbefore : ∀ c ∈ before, Text.isBlank c = true) (hafter : ∀ c ∈ after, Text.isBlank c = true)
    (t : Text) : exemption? ignore (before ++ t ++ after) = exemption? ignore t := by
  have hoccurs : (ignore.any fun pattern => pattern.occursIn (before ++ t ++ after))
      = ignore.any fun pattern => pattern.occursIn t := by
    cases ignore with
    | none => rfl
    | some p =>
        obtain ⟨source, hp⟩ := hignore p rfl
        exact occursIn_between_blanks hbefore hafter hp t
  simp only [exemption?, hasLetter_between_blanks hbefore hafter, hoccurs,
    Text.trim_append_blanks hbefore hafter]

/-- An indented text with a word of a pattern in it. -/
theorem exemption_of_indented_text :
    ∃ p, Pattern.parse "(Sign|Log)In".toList = .ok p ∧
      exemption? (some p) ("\n  ".toList ++ "please SignIn".toList ++ "\u00a0".toList)
        = some .ignorePattern := by
  have hparse : Pattern.parse "(Sign|Log)In".toList
      = .ok ⟨"(Sign|Log)In".toList, ["SignIn".toList, "LogIn".toList]⟩ := by rfl
  refine ⟨_, hparse, ?_⟩
  rw [exemption_between_blanks (by simpa using ⟨_, hparse⟩) (List.all_eq_true.mp rfl)
    (List.all_eq_true.mp rfl)]
  decide +kernel

end Wording

end KeyLint
