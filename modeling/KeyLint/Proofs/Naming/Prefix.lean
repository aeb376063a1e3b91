import KeyLint.Key
import KeyLint.Proofs.Text

/-!
# Keys under the prefix of a file

The prefix of a file is made from the stem of its name, and the keys of the file are counted in
segments between dots. Both agree on a key that goes on after the prefix with one more segment as
long as the stem has no dot. A stem with a dot makes a prefix of too many segments, so that no such
key is accepted.
-/

namespace KeyLint

/-- What all keys of a kind begin with: its key space and a dot, or nothing. -/
def FileKind.keyStart (kind : FileKind) : Text :=
  (kind.keySpace?.map (· ++ ['.'])).getD []

namespace FileContext

/-! ## The parts of a prefix -/

theorem toCapitalAscii_ne_dot {c : Char} (h : isSmallLetter c = true) :
    Text.toCapitalAscii c ≠ '.' := by
  simp only [isSmallLetter, Bool.and_eq_true, decide_eq_true_eq] at h
  rw [Text.toCapitalAscii_eq_toUpper]
  intro heq
  exact absurd (heq ▸ (Text.toUpper_mem_capitals h).1) (by decide)

theorem mem_dot_camelCase_iff {t : Text} : '.' ∈ camelCase t ↔ '.' ∈ t := by
  fun_induction camelCase t with
  | case1 => rfl
  | case2 c => rfl
  | case3 c d cs h ih =>
      simp only [Bool.and_eq_true, decide_eq_true_eq] at h
      obtain ⟨rfl, hd⟩ := h
      have hsmall : d ≠ '.' := by
        rintro rfl
        exact absurd hd (by decide)
      simp [ih, (toCapitalAscii_ne_dot hd).symm, hsmall.symm]
  | case4 c d cs h ih => simp only [List.mem_cons, ih]

theorem camelCase_ne_nil {t : Text} (h : t ≠ []) : camelCase t ≠ [] := by
  fun_cases camelCase t with
  | case1 => exact absurd rfl h
  | case2 c => exact List.cons_ne_nil _ _
  | case3 c d cs => exact List.cons_ne_nil _ _
  | case4 c d cs => exact List.cons_ne_nil _ _

/-- A context comes from a stem that is not empty, which stands in its prefix in camel case. -/
theorem of_ofFile?_eq_some {options : NamingOptions} {file : Text} {context : FileContext}
    (h : ofFile? options file = some context) :
    ∃ stem, splitKind? options.recognizePages (baseName file) = some (stem, context.kind) ∧
      strip options.stripFilePrefixes stem ≠ [] ∧
      context.keyPrefix
        = context.kind.keyStart ++ camelCase (strip options.stripFilePrefixes stem) := by
  cases hsplit : splitKind? options.recognizePages (baseName file) with
  | none => simp [ofFile?, hsplit] at h
  | some split =>
      obtain ⟨stem, kind⟩ := split
      have hstem : strip options.stripFilePrefixes stem ≠ [] := by
        intro hnil
        simp [ofFile?, hsplit, hnil] at h
      cases hspace : kind.keySpace? with
      | none =>
          simp only [ofFile?, hsplit, hspace, List.isEmpty_iff, hstem, if_false] at h
          cases h
          exact ⟨stem, rfl, hstem, by simp [FileKind.keyStart, hspace]⟩
      | some space =>
          simp only [ofFile?, hsplit, hspace, List.isEmpty_iff, hstem, if_false] at h
          cases h
          exact ⟨stem, rfl, hstem, by simp [FileKind.keyStart, hspace]⟩

end FileContext

namespace Key

/-! ## Segments -/

theorem segments_append_dot (s t : Text) :
    segments (s ++ '.' :: t) = segments s ++ segments t :=
  Text.splitWhere_append_cons (decide_eq_true rfl) s t

theorem segments_of_no_dot {t : Text} (h : '.' ∉ t) : segments t = [t] := by
  refine Text.splitWhere_eq_singleton fun c hc => ?_
  rw [decide_eq_false_iff_not]
  rintro rfl
  exact h hc

theorem one_lt_length_segments {t : Text} (h : '.' ∈ t) : 1 < (segments t).length := by
  obtain ⟨s, rest, rfl⟩ := List.append_of_mem h
  have hs := List.length_pos_iff.mpr (Text.splitWhere_ne_nil (· = '.') s)
  have hrest := List.length_pos_iff.mpr (Text.splitWhere_ne_nil (· = '.') rest)
  rw [segments_append_dot, List.length_append]
  simp only [segments, Text.splitOn]
  omega

theorem segments_keyStart (kind : FileKind) (t : Text) :
    segments (kind.keyStart ++ t) = kind.keySpace?.toList ++ segments t := by
  cases kind with
  | component => rfl
  | service => exact segments_append_dot "services".toList t
  | pipe => exact segments_append_dot "pipes".toList t
  | directive => exact segments_append_dot "directives".toList t

/-- The keys of a kind have two segments after the key space. -/
theorem keyParts_eq (kind : FileKind) : kind.keyParts = kind.keySpace?.toList.length + 2 := by
  cases kind <;> rfl

theorem isUnder_append (keyPrefix t : Text) : isUnder keyPrefix (keyPrefix ++ '.' :: t) = true := by
  simp [isUnder]

/-! ## Keys of one more segment than the prefix -/

section

variable {context : FileContext} {base segment : Text}
  (hkey : context.keyPrefix = context.kind.keyStart ++ base) (hdot : '.' ∉ segment)

include hkey hdot

theorem segments_prefixed :
    segments (context.keyPrefix ++ '.' :: segment)
      = context.kind.keySpace?.toList ++ segments base ++ [segment] := by
  rw [segments_append_dot, hkey, segments_keyStart, segments_of_no_dot hdot]

theorem fault?_of_no_dot (hbase : base ≠ []) (hno : '.' ∉ base) (hne : segment ≠ [])
    (ignored : List Text) :
    fault? context ignored (context.keyPrefix ++ '.' :: segment) = none := by
  have hsegments : segments (context.keyPrefix ++ '.' :: segment)
      = context.kind.keySpace?.toList ++ [base, segment] := by
    rw [segments_prefixed hkey hdot, segments_of_no_dot hno]
    simp
  have hempty : (segments (context.keyPrefix ++ '.' :: segment)).any List.isEmpty = false := by
    have hspace : context.kind.keySpace?.toList.any List.isEmpty = false := by
      cases context.kind <;> rfl
    simp [hsegments, hspace, hbase, hne]
  have hlength : (segments (context.keyPrefix ++ '.' :: segment)).length
      = context.kind.keyParts := by
    rw [hsegments, keyParts_eq, List.length_append]
    rfl
  simp [fault?, hempty, isUnder_append, hlength]

theorem fault?_of_dot (hyes : '.' ∈ base) (hne : segment ≠ []) {ignored : List Text}
    (hignored : ∀ p ∈ ignored, ¬ p <+: context.keyPrefix ++ '.' :: segment) :
    fault? context ignored (context.keyPrefix ++ '.' :: segment)
      = some (if [] ∈ segments context.keyPrefix
          then .notEnoughParts (context.keyPrefix ++ '.' :: segment) context.kind
          else .tooManyParts (context.keyPrefix ++ '.' :: segment) context.kind) := by
  have hnone : (ignored.any fun p => p.isPrefixOf (context.keyPrefix ++ '.' :: segment))
      = false := by
    simpa [List.isPrefixOf_iff_prefix] using hignored
  have hempty : (segments (context.keyPrefix ++ '.' :: segment)).any List.isEmpty = true ↔
      [] ∈ segments context.keyPrefix := by
    rw [segments_append_dot, segments_of_no_dot hdot]
    simp [hne]
  have hlength : context.kind.keyParts
      < (segments (context.keyPrefix ++ '.' :: segment)).length := by
    have hbase := one_lt_length_segments hyes
    rw [segments_prefixed hkey hdot, keyParts_eq]
    simp only [List.length_append, List.length_singleton]
    omega
  by_cases hmem : [] ∈ segments context.keyPrefix
  · simp [fault?, hnone, hempty.mpr hmem, hmem]
  · have hfull : (segments (context.keyPrefix ++ '.' :: segment)).any List.isEmpty = false :=
      Bool.eq_false_iff.mpr fun h => hmem (hempty.mp h)
    simp [fault?, hnone, hfull, hmem, isUnder_append, hlength, Nat.not_lt_of_gt hlength]

end

/-- A file whose stem has no dot accepts every key that goes on after the prefix with one segment.
If the stem has a dot, the key is reported, unless it is ignored: it has too many segments, or an
empty one. -/
theorem prefixed_segment_of_stem {options : NamingOptions} {file : Text} {context : FileContext}
    (h : FileContext.ofFile? options file = some context) {segment : Text} (hne : segment ≠ [])
    (hdot : '.' ∉ segment) :
    ∃ stem, FileContext.splitKind? options.recognizePages (FileContext.baseName file)
        = some (stem, context.kind) ∧
      ('.' ∉ FileContext.strip options.stripFilePrefixes stem → ∀ ignored,
        fault? context ignored (context.keyPrefix ++ '.' :: segment) = none) ∧
      ('.' ∈ FileContext.strip options.stripFilePrefixes stem → ∀ ignored,
        (∀ p ∈ ignored, ¬ p <+: context.keyPrefix ++ '.' :: segment) →
        fault? context ignored (context.keyPrefix ++ '.' :: segment)
          = some (if [] ∈ segments context.keyPrefix
              then .notEnoughParts (context.keyPrefix ++ '.' :: segment) context.kind
              else .tooManyParts (context.keyPrefix ++ '.' :: segment) context.kind)) := by
  obtain ⟨stem, hsplit, hstem, hkey⟩ := FileContext.of_ofFile?_eq_some h
  refine ⟨stem, hsplit, ?_, ?_⟩
  · intro hno ignored
    refine fault?_of_no_dot hkey hdot (FileContext.camelCase_ne_nil hstem) ?_ hne ignored
    rwa [FileContext.mem_dot_camelCase_iff]
  · intro hyes ignored hignored
    refine fault?_of_dot hkey hdot ?_ hne hignored
    rwa [FileContext.mem_dot_camelCase_iff]

/-- A service whose file name has a beginning that does not count. -/
theorem prefixed_segment_of_service :
    FileContext.ofFile? {} "app/ui-sign-in.service.ts".toList
      = some ⟨"services.signIn".toList, .service⟩ ∧
    fault? ⟨"services.signIn".toList, .service⟩ [] "services.signIn.error".toList = none := by
  have hcontext : FileContext.ofFile? {} "app/ui-sign-in.service.ts".toList
      = some ⟨"services.signIn".toList, .service⟩ := by decide +kernel
  have hsplit : FileContext.splitKind? true
      (FileContext.baseName "app/ui-sign-in.service.ts".toList)
      = some ("ui-sign-in".toList, .service) := by decide +kernel
  have hne : "error".toList ≠ [] := by decide
  have hdot : '.' ∉ "error".toList := by decide
  obtain ⟨stem, hstem, hno, _⟩ := prefixed_segment_of_stem hcontext hne hdot
  cases hsplit.symm.trans hstem
  exact ⟨hcontext, hno (by decide +kernel) []⟩

/-- The stem `user.profile` makes the prefix `user.profile`, but keys of components have two
segments. -/
theorem not_all_prefixed_segments :
    ¬ ∀ (options : NamingOptions) (file : Text) (context : FileContext),
      FileContext.ofFile? options file = some context →
      ∀ segment : Text, segment ≠ [] → '.' ∉ segment → ∀ ignored,
        fault? context ignored (context.keyPrefix ++ '.' :: segment) = none := by
  intro hall
  have hcontext : FileContext.ofFile? {} "user.profile.component.ts".toList
      = some ⟨"user.profile".toList, .component⟩ := by decide +kernel
  have hnone := hall {} _ _ hcontext "title".toList (by decide) (by decide) []
  exact absurd hnone (by decide)

end Key

end KeyLint
