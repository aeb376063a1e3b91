import KeyLint.Proofs.Naming.Prefix

/-!
# Contexts as normal forms of base names

The context of a file depends on the last part of its name only. What stands before the ending is
brought to a normal form in two steps: beginnings that do not count are stripped until none is left,
and hyphens before small letters are joined away. Both steps end where nothing more can be done
(`stripsTo_strip`, `camelCase_camelCase`), and no ending is an ending of another, so that the order
in which endings are tried does not count (`splitKind?_eq_some_iff`).
-/

namespace KeyLint.FileContext

/-! ## Folders -/

def IsSeparator (c : Char) : Prop :=
  c = '/' ∨ c = '\\'

theorem baseName_append {folder base : Text} (hfolder : ∀ c ∈ folder.getLast?, IsSeparator c)
    (hbase : ∀ c ∈ base, ¬ IsSeparator c) : baseName (folder ++ base) = base := by
  refine Text.afterLast_append ?_ ?_
  · intro c hc
    simpa [IsSeparator] using hfolder c hc
  · intro c hc
    simpa [IsSeparator] using hbase c hc

theorem baseName_eq_self {base : Text} (h : ∀ c ∈ base, ¬ IsSeparator c) : baseName base = base :=
  @baseName_append [] base (by simp) h

theorem exists_folder (file : Text) :
    ∃ folder, file = folder ++ baseName file ∧ (∀ c ∈ folder.getLast?, IsSeparator c) ∧
      ∀ c ∈ baseName file, ¬ IsSeparator c := by
  obtain ⟨folder, hfile, hfolder, hbase⟩ :=
    Text.exists_eq_append_afterLast (fun c => c = '/' || c = '\\') file
  refine ⟨folder, hfile, ?_, ?_⟩
  · intro c hc
    simpa [IsSeparator] using hfolder c hc
  · intro c hc
    simpa [IsSeparator] using hbase c hc

/-! ## Endings -/

/-- An ending that tells a kind under the given options. -/
def Recognizes (options : NamingOptions) (ending : Text) (kind : FileKind) : Prop :=
  (ending, kind) ∈ FileKind.endings ∨
    options.recognizePages = true ∧ (ending, kind) ∈ FileKind.pageEndings

/-- The endings that are looked for, in order. -/
def recognized (recognizePages : Bool) : List (Text × FileKind) :=
  if recognizePages then FileKind.endings ++ FileKind.pageEndings else FileKind.endings

theorem mem_recognized_iff {options : NamingOptions} {ending : Text} {kind : FileKind} :
    (ending, kind) ∈ recognized options.recognizePages ↔ Recognizes options ending kind := by
  cases h : options.recognizePages <;> simp [recognized, Recognizes, h]

theorem eq_of_ending_suffix (recognizePages : Bool) :
    ∀ e ∈ recognized recognizePages, ∀ e' ∈ recognized recognizePages, e.1 <:+ e'.1 → e = e' := by
  cases recognizePages <;> decide +kernel

theorem dot_head_of_ending (recognizePages : Bool) :
    ∀ e ∈ recognized recognizePages, e.1.head? = some '.' := by
  cases recognizePages <;> decide +kernel

theorem splitKind?_eq_some_iff {recognizePages : Bool} {base stem : Text} {kind : FileKind} :
    splitKind? recognizePages base = some (stem, kind) ↔
      ∃ ending, (ending, kind) ∈ recognized recognizePages ∧ base = stem ++ ending := by
  constructor
  · intro h
    obtain ⟨⟨ending, kind'⟩, hmem, hfound⟩ := List.exists_of_findSome?_eq_some h
    obtain ⟨stem', hbefore, heq⟩ := Option.map_eq_some_iff.mp hfound
    cases heq
    exact ⟨ending, hmem, Text.eq_append_of_before?_eq_some hbefore⟩
  · rintro ⟨ending, hmem, rfl⟩
    cases hsplit : splitKind? recognizePages (stem ++ ending) with
    | none =>
        have hnone := List.findSome?_eq_none_iff.mp hsplit (ending, kind) hmem
        simp [Text.before?_append] at hnone
    | some found =>
        obtain ⟨⟨ending', kind'⟩, hmem', hfound⟩ := List.exists_of_findSome?_eq_some hsplit
        obtain ⟨stem', hbefore, rfl⟩ := Option.map_eq_some_iff.mp hfound
        have hbase := Text.eq_append_of_before?_eq_some hbefore
        have hsuffix : ending <:+ stem ++ ending := List.suffix_append stem ending
        have hsuffix' : ending' <:+ stem ++ ending := hbase ▸ List.suffix_append stem' ending'
        -- Of two endings of one name the shorter ends the longer, and so they are the same.
        have hsame : (ending, kind) = (ending', kind') := by
          rcases List.suffix_or_suffix_of_suffix hsuffix hsuffix' with hle | hle
          · exact eq_of_ending_suffix recognizePages _ hmem _ hmem' hle
          · exact (eq_of_ending_suffix recognizePages _ hmem' _ hmem hle).symm
        cases hsame
        rw [List.append_cancel_right hbase]

theorem exists_stem_of_append {recognizePages : Bool} {p base stem ending : Text} {kind : FileKind}
    (hp : '.' ∉ p) (hmem : (ending, kind) ∈ recognized recognizePages)
    (h : p ++ base = stem ++ ending) : ∃ rest, base = rest ++ ending := by
  have hhead := dot_head_of_ending recognizePages _ hmem
  rcases List.append_eq_append_iff.mp h with ⟨rest, _, hbase⟩ | ⟨part, hpart, hending⟩
  · exact ⟨rest, hbase⟩
  · cases part with
    | nil => exact ⟨[], by simpa using hending.symm⟩
    | cons c part =>
        -- The ending would begin inside `p`, and it begins with a dot.
        simp only [hending, List.cons_append, List.head?_cons, Option.some.injEq] at hhead
        exact absurd (by simp [hpart, hhead]) hp

theorem splitKind?_append {p : Text} (hp : '.' ∉ p) (recognizePages : Bool) (base : Text) :
    splitKind? recognizePages (p ++ base)
      = (splitKind? recognizePages base).map fun (stem, kind) => (p ++ stem, kind) := by
  cases hsplit : splitKind? recognizePages base with
  | some split =>
      obtain ⟨stem, kind⟩ := split
      obtain ⟨ending, hmem, rfl⟩ := splitKind?_eq_some_iff.mp hsplit
      exact splitKind?_eq_some_iff.mpr ⟨ending, hmem, (List.append_assoc p stem ending).symm⟩
  | none =>
      rw [Option.map_none, Option.eq_none_iff_forall_ne_some]
      rintro ⟨stem, kind⟩ hsome
      obtain ⟨ending, hmem, heq⟩ := splitKind?_eq_some_iff.mp hsome
      obtain ⟨rest, hbase⟩ := exists_stem_of_append hp hmem heq
      rw [splitKind?_eq_some_iff.mpr ⟨ending, hmem, hbase⟩] at hsplit
      cases hsplit

/-! ## Stripping -/

/-- What is left of a stem once nothing more can be stripped from it. -/
structure StripsTo (starts : List Text) (stem rest : Text) : Prop where
  stripped : ∃ removed : List Text, (∀ p ∈ removed, p ∈ starts ∧ p ≠ []) ∧
    stem = removed.flatten ++ rest
  bare : ∀ p ∈ starts, p ≠ [] → ¬ p <+: rest

theorem of_stripOne?_eq_some {starts : List Text} {stem rest : Text}
    (h : stripOne? starts stem = some rest) :
    ∃ p ∈ starts, p ≠ [] ∧ stem = p ++ rest := by
  obtain ⟨p, hmem, hafter⟩ := List.exists_of_findSome?_eq_some h
  obtain ⟨hp, hne⟩ := List.mem_filter.mp hmem
  exact ⟨p, hp, by simpa using hne, Text.eq_append_of_after?_eq_some hafter⟩

theorem stripOne?_eq_none_iff {starts : List Text} {stem : Text} :
    stripOne? starts stem = none ↔ ∀ p ∈ starts, p ≠ [] → ¬ p <+: stem := by
  simp [stripOne?, List.findSome?_eq_none_iff, Text.after?_eq_none_iff]

theorem stripsTo_strip (starts : List Text) (stem : Text) :
    StripsTo starts stem (strip starts stem) := by
  fun_induction strip starts stem with
  | case1 stem rest h ih =>
      obtain ⟨p, hp, hne, rfl⟩ := of_stripOne?_eq_some h
      obtain ⟨removed, hremoved, heq⟩ := ih.stripped
      refine ⟨⟨p :: removed, List.forall_mem_cons.mpr ⟨⟨hp, hne⟩, hremoved⟩, ?_⟩, ih.bare⟩
      rw [List.flatten_cons, List.append_assoc, ← heq]
  | case2 stem h => exact ⟨⟨[], by simp, by simp⟩, stripOne?_eq_none_iff.mp h⟩

/-- Where no beginning is one of another, the one that a stem has is stripped first, whatever the
order of the list. -/
theorem strip_append {starts : List Text} (hfree : ∀ p ∈ starts, ∀ q ∈ starts, p <+: q → p = q)
    {p : Text} (hp : p ∈ starts) (stem : Text) : strip starts (p ++ stem) = strip starts stem := by
  by_cases hne : p = []
  · rw [hne, List.nil_append]
  have hone : stripOne? starts (p ++ stem) = some stem := by
    cases hstrip : stripOne? starts (p ++ stem) with
    | none => exact absurd (List.prefix_append p stem) (stripOne?_eq_none_iff.mp hstrip p hp hne)
    | some rest =>
        obtain ⟨q, hq, _, heq⟩ := of_stripOne?_eq_some hstrip
        have hsame : p = q := by
          rcases List.prefix_or_prefix_of_prefix (List.prefix_append p stem) ⟨rest, heq.symm⟩
            with hle | hle
          · exact hfree p hp q hq hle
          · exact (hfree q hq p hp hle).symm
        subst hsame
        rw [List.append_cancel_left heq]
  rw [strip]
  split
  · next rest hrest =>
      rw [hone] at hrest
      cases hrest
      rfl
  · next hnone =>
      rw [hone] at hnone
      cases hnone

/-! ## Camel case -/

/-- What a character becomes between its neighbours: a hyphen before a small letter goes, a small
letter after a hyphen becomes a capital, and anything else stays. -/
def inCamelCase (before : Option Char) (c : Char) (after : Option Char) : Text :=
  if c = '-' && after.any isSmallLetter then []
  else if before = some '-' && isSmallLetter c then [c.toUpper]
  else [c]

/-- The characters of a text after `before`, each with what it becomes between its neighbours. -/
def camelCaseAfter (before : Option Char) (t : Text) : Text :=
  (List.zipWith3 inCamelCase (before :: t.map some) t (t.tail.map some ++ [none])).flatten

theorem camelCaseAfter_cons (before : Option Char) (c : Char) (t : Text) :
    camelCaseAfter before (c :: t) = inCamelCase before c t.head? ++ camelCaseAfter (some c) t := by
  cases t <;> rfl

theorem isSmallLetter_iff {c : Char} : isSmallLetter c = true ↔ 'a' ≤ c ∧ c ≤ 'z' := by
  simp [isSmallLetter]

theorem camelCaseAfter_eq {before : Option Char} {t : Text}
    (h : before = some '-' → ∀ d ∈ t.head?, ¬ ('a' ≤ d ∧ d ≤ 'z')) :
    camelCaseAfter before t = camelCase t := by
  -- The invariant: a hyphen that was kept has no small letter after it.
  fun_induction camelCase t generalizing before with
  | case1 => rfl
  | case2 c =>
      have hc : ¬ (before = some '-' ∧ 'a' ≤ c ∧ c ≤ 'z') := fun hsmall => h hsmall.1 c rfl hsmall.2
      have hlast : camelCaseAfter (some c) [] = [] := rfl
      simp [camelCaseAfter_cons, inCamelCase, isSmallLetter_iff, hc, hlast]
  | case3 c d cs hcd ih =>
      simp only [Bool.and_eq_true, decide_eq_true_eq, isSmallLetter_iff] at hcd
      obtain ⟨rfl, hd⟩ := hcd
      have hne : d ≠ '-' := by
        rintro rfl
        exact absurd hd (by decide)
      rw [camelCaseAfter_cons, camelCaseAfter_cons, ih (by simp [hne]),
        Text.toCapitalAscii_eq_toUpper]
      simp [inCamelCase, isSmallLetter_iff, hd, hne]
  | case4 c d cs hcd ih =>
      simp only [Bool.and_eq_true, decide_eq_true_eq, isSmallLetter_iff] at hcd
      have hc : ¬ (before = some '-' ∧ 'a' ≤ c ∧ c ≤ 'z') := fun hsmall => h hsmall.1 c rfl hsmall.2
      rw [camelCaseAfter_cons, ih ?_]
      · simp [inCamelCase, isSmallLetter_iff, hcd, hc]
      · intro hmark x hx hsmall
        cases hmark
        cases hx
        exact hcd ⟨rfl, hsmall⟩

theorem head?_camelCase {t : Text} {c : Char} (h : (camelCase t).head? = some c)
    (hsmall : 'a' ≤ c) : t.head? = some c := by
  revert h
  fun_cases camelCase t with
  | case1 => exact id
  | case2 d => exact id
  | case3 b d cs hbd =>
      intro h
      simp only [Bool.and_eq_true, decide_eq_true_eq, isSmallLetter_iff] at hbd
      rw [Text.toCapitalAscii_eq_toUpper] at h
      cases h
      exact absurd (Char.le_trans hsmall (Text.toUpper_mem_capitals hbd.2).2) (by decide)
  | case4 b d cs _ => exact id

/-- No hyphen is left before a small letter. -/
theorem not_hyphen_infix_camelCase (t : Text) {c : Char} (hc : 'a' ≤ c ∧ c ≤ 'z') :
    ¬ ['-', c] <:+: camelCase t := by
  fun_induction camelCase t with
  | case1 => simp
  | case2 b => simp [List.infix_cons_iff]
  | case3 b d cs hbd ih =>
      simp only [Bool.and_eq_true, decide_eq_true_eq, isSmallLetter_iff] at hbd
      rw [List.infix_cons_iff, Text.toCapitalAscii_eq_toUpper]
      rintro (hpre | hin)
      · have hcapital := (Text.toUpper_mem_capitals hbd.2).1
        rw [← (List.cons_prefix_cons.mp hpre).1] at hcapital
        exact absurd hcapital (by decide)
      · exact ih hin
  | case4 b d cs hbd ih =>
      simp only [Bool.and_eq_true, decide_eq_true_eq, isSmallLetter_iff] at hbd
      rw [List.infix_cons_iff]
      rintro (hpre | hin)
      · obtain ⟨hhyphen, rest, hrest⟩ := List.cons_prefix_cons.mp hpre
        have hhead : (d :: cs).head? = some c := head?_camelCase (by rw [← hrest]; rfl) hc.1
        cases hhead
        exact hbd ⟨hhyphen.symm, hc⟩
      · exact ih hin

theorem camelCase_of_not_infix {t : Text} (h : ∀ c, 'a' ≤ c ∧ c ≤ 'z' → ¬ ['-', c] <:+: t) :
    camelCase t = t := by
  fun_induction camelCase t with
  | case1 => rfl
  | case2 c => rfl
  | case3 b d cs hbd _ =>
      simp only [Bool.and_eq_true, decide_eq_true_eq, isSmallLetter_iff] at hbd
      obtain ⟨rfl, hd⟩ := hbd
      exact absurd ⟨[], cs, rfl⟩ (h d hd)
  | case4 b d cs _ ih =>
      rw [ih fun c hc hin => h c hc (List.infix_cons hin)]

theorem camelCase_camelCase (t : Text) : camelCase (camelCase t) = camelCase t :=
  camelCase_of_not_infix fun _ hc => not_hyphen_infix_camelCase t hc

/-! ## Contexts -/

section

variable {options : NamingOptions} {file : Text}

theorem ofFile?_eq_some_iff {context : FileContext} :
    ofFile? options file = some context ↔
      ∃ stem ending, Recognizes options ending context.kind ∧ baseName file = stem ++ ending ∧
        strip options.stripFilePrefixes stem ≠ [] ∧
        context.keyPrefix
          = context.kind.keyStart ++ camelCase (strip options.stripFilePrefixes stem) := by
  constructor
  · intro h
    obtain ⟨stem, hsplit, hstem, hkey⟩ := of_ofFile?_eq_some h
    obtain ⟨ending, hmem, hbase⟩ := splitKind?_eq_some_iff.mp hsplit
    exact ⟨stem, ending, mem_recognized_iff.mp hmem, hbase, hstem, hkey⟩
  · rintro ⟨stem, ending, hrecognizes, hbase, hstem, hkey⟩
    obtain ⟨keyPrefix, kind⟩ := context
    obtain rfl : keyPrefix
        = kind.keyStart ++ camelCase (strip options.stripFilePrefixes stem) := hkey
    have hsplit : splitKind? options.recognizePages (baseName file) = some (stem, kind) :=
      splitKind?_eq_some_iff.mpr ⟨ending, mem_recognized_iff.mpr hrecognizes, hbase⟩
    cases hspace : kind.keySpace? with
    | none => simp [ofFile?, hsplit, hstem, hspace, FileKind.keyStart]
    | some space => simp [ofFile?, hsplit, hstem, hspace, FileKind.keyStart]

theorem ofFile?_folder {folder base : Text} (hfolder : ∀ c ∈ folder.getLast?, IsSeparator c)
    (hbase : ∀ c ∈ base, ¬ IsSeparator c) :
    ofFile? options (folder ++ base) = ofFile? options base := by
  rw [ofFile?, ofFile?, baseName_append hfolder hbase, baseName_eq_self hbase]

theorem ofFile?_append
    (hfree : ∀ p ∈ options.stripFilePrefixes, ∀ q ∈ options.stripFilePrefixes, p <+: q → p = q)
    {p base : Text} (hp : p ∈ options.stripFilePrefixes) (hdot : '.' ∉ p)
    (hpart : ∀ c ∈ p, ¬ IsSeparator c) (hbase : ∀ c ∈ base, ¬ IsSeparator c) :
    ofFile? options (p ++ base) = ofFile? options base := by
  have hname : baseName (p ++ base) = p ++ base :=
    baseName_eq_self (List.forall_mem_append.mpr ⟨hpart, hbase⟩)
  rw [ofFile?, ofFile?, baseName_eq_self hbase, hname, splitKind?_append hdot]
  cases splitKind? options.recognizePages base with
  | none => rfl
  | some split => simp only [Option.map_some, strip_append hfree hp]

end

/-- The context of a file is made from its base name alone: it is there exactly if the name is a
stem and a known ending and something of the stem is left after stripping, and its prefix is what is
left in camel case. Stripping and camel case leave nothing to strip and nothing to join. A beginning
that is stripped makes no difference before the base name, if no beginning is one of another. -/
theorem context_of_base_name (options : NamingOptions) (file : Text) :
    ∃ folder base, file = folder ++ base ∧ (∀ c ∈ folder.getLast?, IsSeparator c) ∧
      (∀ c ∈ base, ¬ IsSeparator c) ∧
      (∀ folder', (∀ c ∈ folder'.getLast?, IsSeparator c) →
        ofFile? options (folder' ++ base) = ofFile? options file) ∧
      (∀ context, ofFile? options file = some context ↔
        ∃ stem ending, Recognizes options ending context.kind ∧ base = stem ++ ending ∧
          strip options.stripFilePrefixes stem ≠ [] ∧
          context.keyPrefix
            = context.kind.keyStart ++ camelCase (strip options.stripFilePrefixes stem)) ∧
      (∀ stem, StripsTo options.stripFilePrefixes stem (strip options.stripFilePrefixes stem)) ∧
      (∀ t, camelCase t = camelCaseAfter none t ∧
        (∀ c, 'a' ≤ c ∧ c ≤ 'z' → ¬ ['-', c] <:+: camelCase t) ∧
        camelCase (camelCase t) = camelCase t) ∧
      ((∀ p ∈ options.stripFilePrefixes, ∀ q ∈ options.stripFilePrefixes, p <+: q → p = q) →
        (∀ p ∈ options.stripFilePrefixes, '.' ∉ p ∧ ∀ c ∈ p, ¬ IsSeparator c) →
        ∀ p ∈ options.stripFilePrefixes,
          ofFile? options (folder ++ (p ++ base)) = ofFile? options file) := by
  obtain ⟨folder, hfile, hfolder, hbase⟩ := exists_folder file
  have hcontext : ofFile? options file = ofFile? options (baseName file) := by
    rw [ofFile?, ofFile?, baseName_eq_self hbase]
  refine ⟨folder, baseName file, hfile, hfolder, hbase, ?_, ?_, ?_, ?_, ?_⟩
  · intro folder' hfolder'
    rw [ofFile?_folder hfolder' hbase, hcontext]
  · exact fun _ => ofFile?_eq_some_iff
  · exact stripsTo_strip options.stripFilePrefixes
  · intro t
    exact ⟨(camelCaseAfter_eq (by simp)).symm, fun _ hc => not_hyphen_infix_camelCase t hc,
      camelCase_camelCase t⟩
  · intro hfree hplain p hp
    obtain ⟨hdot, hpart⟩ := hplain p hp
    rw [ofFile?_folder hfolder (List.forall_mem_append.mpr ⟨hpart, hbase⟩),
      ofFile?_append hfree hp hdot hpart hbase, hcontext]

example : ofFile? {} "app/ui-feature-sign-in.page.ts".toList
    = some ⟨"signIn".toList, .component⟩ := by decide +kernel

end KeyLint.FileContext
