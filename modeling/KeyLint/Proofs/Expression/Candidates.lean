import Mathlib.Data.List.Nodup
import Mathlib.Data.List.Pairwise
import Mathlib.Data.List.Perm.Subperm
import KeyLint.Expression.Keys
import KeyLint.Proofs.Expression.Operands
import KeyLint.Proofs.Expression.Survey
import KeyLint.Proofs.Expression.Tokens

/-!
# Candidate keys and the strings of an expression

Keys are looked for by the shape of quoted tokens, in stretches of an expression, and without regard
to where its strings begin and end. As long as the tokens are strings, every candidate is a string
of its own that stands in no arguments of a pipe. A token that begins at the last quote of a string,
and a `read` clause within the operand or the arguments of a pipe, are where this fails.
-/

namespace KeyLint.Expression

/-! ## Tokens and strings -/

namespace StringAt

def key (s : StringAt) : QuotedKey :=
  ⟨s.place, s.content⟩

@[simp] theorem key_place (s : StringAt) : s.key.place = s.place := rfl

@[simp] theorem key_stop (s : StringAt) : s.key.stop = s.stop := rfl

/-- A string in single or double quotes that has the shape of a key. -/
def IsKey (s : StringAt) : Prop :=
  isQuote s.quote = true ∧ HasKeyShape s.content

instance (s : StringAt) : Decidable s.IsKey :=
  inferInstanceAs (Decidable (_ ∧ _))

end StringAt

/-- Every token of an expression is one of its strings, or begins at the last quote of a string that
is a token itself. -/
def Aligned (source : Text) : Prop :=
  ∀ k ∈ quotedTokens 0 source,
    ∃ s ∈ (survey source).strings, s.IsKey ∧ (s.key = k ∨ s.stop = k.place)

/-- Every token that is read by a clause is a string, in no operand of the translation pipe and in no
arguments. -/
def ReadsApart (source : Text) : Prop :=
  ∀ k ∈ quotedTokens 0 source, endsInRead (source.take k.place) = true →
    ∃ s ∈ (survey source).strings, s.IsKey ∧ s.key = k ∧
      ¬ s.IsTranslated (survey source).bars ∧ ¬ s.IsArgument (survey source).bars

/-- The candidates of an expression are the contents of strings, each of another one, and none of
them is in the arguments of a pipe. -/
def ReportsStrings (source : Text) : Prop :=
  ∃ found : List StringAt, keys source = found.map StringAt.content ∧ found.Nodup ∧
    ∀ s ∈ found, s ∈ (survey source).strings ∧ isQuote s.quote = true ∧
      ¬ s.IsArgument (survey source).bars

instance (source : Text) : Decidable (Aligned source) :=
  inferInstanceAs (Decidable (∀ k ∈ quotedTokens 0 source, ∃ s ∈ (survey source).strings, _ ∧ _))

instance (source : Text) : Decidable (ReadsApart source) :=
  inferInstanceAs (Decidable (∀ k ∈ quotedTokens 0 source, _ → ∃ s ∈ (survey source).strings, _))

theorem mem_quotedTokens_of_isKey {source : Text} {s : StringAt}
    (hs : s ∈ (survey source).strings) (h : s.IsKey) : s.key ∈ quotedTokens 0 source := by
  rw [mem_quotedTokens_iff, tokenAt?_eq_some_iff]
  exact ⟨Nat.zero_le _, h.2, s.quote, s.quote, h.1, h.1, text_of_mem_strings hs⟩

theorem lt_or_lt_of_pairwise {α : Type} {start stop : α → Nat} {l : List α}
    (h : l.Pairwise fun a b => stop a < start b) {a b : α} (ha : a ∈ l) (hb : b ∈ l)
    (hne : a ≠ b) : stop a < start b ∨ stop b < start a := by
  have hapart : l.Pairwise fun a b => stop a < start b ∨ stop b < start a := h.imp Or.inl
  have : Std.Symm fun a b => stop a < start b ∨ stop b < start a := ⟨fun _ _ => Or.symm⟩
  exact hapart.forall ha hb hne

/-- The tokens that are found in an operand are strings. -/
theorem Aligned.exists_string {source : Text} (h : Aligned source) {o : Stretch}
    (ho : o.IsOperand (survey source).bars (survey source).strings) {k : QuotedKey}
    (hk : k ∈ quotedKeys o.start ((source.take o.stop).drop o.start)) :
    ∃ s ∈ (survey source).strings, s.IsKey ∧ s.key = k := by
  have hsound := (scanCode_survey source).1
  induction hplace : k.place using Nat.strong_induction_on generalizing k with
  | _ place ih =>
      obtain ⟨htoken, hlow, hhigh⟩ :=
        mem_quotedTokens_slice.mp (mem_quotedTokens_of_quotedKeys k hk)
      obtain ⟨s, hs, hkey, hsame | hstop⟩ := h k htoken
      · exact ⟨s, hs, hkey, hsame⟩
      -- The search would have taken the string, or a string that overlaps with it.
      have hwidth := s.place_lt_stop
      have hwidth' := k.place_lt_stop
      rcases ho.string s hs with hbefore | ⟨hle, _⟩ | hafter
      · omega
      · have hinside : s.key ∈ quotedTokens o.start ((source.take o.stop).drop o.start) := by
          refine mem_quotedTokens_slice.mpr ⟨mem_quotedTokens_of_isKey hs hkey, hle, ?_⟩
          rw [StringAt.key_stop]
          omega
        rcases mem_quotedKeys_or_within s.key hinside with hfound | ⟨l, hl, hlt, hwithin⟩
        · have hne : s.key ≠ k := by
            rintro rfl
            exact Nat.ne_of_lt hwidth hstop.symm
          have hapart := lt_or_lt_of_pairwise (pairwise_stop_quotedKeys _ _) hfound hk hne
          rw [StringAt.key_stop, StringAt.key_place] at hapart
          omega
        · rw [StringAt.key_place] at hlt hwithin
          obtain ⟨r, hr, _, rfl⟩ := ih l.place (by omega) hl rfl
          rw [StringAt.key_place] at hlt
          rw [StringAt.key_stop] at hwithin
          have hne : r ≠ s := by
            rintro rfl
            exact Nat.lt_irrefl _ hlt
          have hapart := lt_or_lt_of_pairwise hsound.apart hr hs hne
          omega
      · omega

/-- A string within an operand is in the group of that operand. -/
theorem Stretch.IsOperand.isTranslated {o : Stretch} {bars : List Bar} {strings : List StringAt}
    (h : o.IsOperand bars strings) {s : StringAt} (hs : s ∈ strings) (hstart : o.start ≤ s.place)
    (hstop : s.stop < o.stop) : s.IsTranslated bars := by
  have hwidth := s.place_lt_stop
  obtain ⟨b, hb, hgroup, htranslated⟩ := h.bar
  rcases h.string s hs with hbefore | ⟨-, hin⟩ | hafter
  · omega
  · exact ⟨b, hb, hgroup ▸ hin, htranslated⟩
  · omega

/-! ## Candidates -/

theorem exists_strings {p : StringAt → Prop} {ks : List QuotedKey} (hnodup : ks.Nodup)
    (h : ∀ k ∈ ks, ∃ s, p s ∧ s.key = k) :
    ∃ found : List StringAt, ks.map QuotedKey.key = found.map StringAt.content ∧ found.Nodup ∧
      ∀ s ∈ found, p s := by
  have hfound : ∃ found : List StringAt, found.map StringAt.key = ks ∧ ∀ s ∈ found, p s := by
    clear hnodup
    induction ks with
    | nil => exact ⟨[], rfl, by simp⟩
    | cons k ks ih =>
        obtain ⟨⟨s, hs, rfl⟩, hks⟩ := List.forall_mem_cons.mp h
        obtain ⟨found, rfl, hfound⟩ := ih hks
        exact ⟨s :: found, rfl, List.forall_mem_cons.mpr ⟨hs, hfound⟩⟩
  obtain ⟨found, rfl, hfound⟩ := hfound
  exact ⟨found, by rw [List.map_map]; rfl, List.Nodup.of_map StringAt.key hnodup, hfound⟩

theorem nodup_of_pairwise_lt {ks : List QuotedKey} (h : ks.Pairwise fun k l => k.place < l.place) :
    ks.Nodup :=
  h.imp fun hlt heq => Nat.ne_of_lt hlt (congrArg QuotedKey.place heq)

/-- The keys in the operands of the translation pipe. -/
theorem exists_pipedKeys_eq {source : Text} (h : Aligned source) :
    ∃ found : List StringAt, pipedKeys source = found.map StringAt.content ∧ found.Nodup ∧
      ∀ s ∈ found, s ∈ (survey source).strings ∧ s.IsKey ∧
        s.IsTranslated (survey source).bars ∧ ¬ s.IsArgument (survey source).bars := by
  obtain ⟨hsound, hoperands, harguments⟩ := scanCode_survey source
  have hsorted : ((survey source).strings.map StringAt.key).Pairwise
      fun k l => k.place < l.place :=
    List.pairwise_map.mpr (hsound.apart.imp fun {s _} hlt => s.place_lt_stop.trans hlt)
  rw [pipedKeys]
  generalize hkept : List.filter _ _ = kept
  have hstring : ∀ k ∈ kept, ∃ s, (s ∈ (survey source).strings ∧ s.IsKey ∧
      s.IsTranslated (survey source).bars ∧ ¬ s.IsArgument (survey source).bars) ∧ s.key = k := by
    intro k hk
    rw [← hkept, List.mem_filter, List.mem_flatMap] at hk
    obtain ⟨⟨o, ho, hquoted⟩, hnot⟩ := hk
    obtain ⟨-, hlow, hhigh⟩ :=
      mem_quotedTokens_slice.mp (mem_quotedTokens_of_quotedKeys k hquoted)
    obtain ⟨s, hs, hkey, rfl⟩ := h.exists_string (hoperands o ho) hquoted
    refine ⟨s, ⟨hs, hkey, (hoperands o ho).isTranslated hs hlow hhigh, fun harg => ?_⟩, rfl⟩
    have hcovers := harguments s hs harg
    rw [covers] at hcovers
    simp [hcovers] at hnot
  -- The tokens that are kept are strings, so that sorting them by place takes them as the
  -- expression has them.
  have hmem : ∀ k ∈ kept, k ∈ (survey source).strings.map StringAt.key := by
    intro k hk
    obtain ⟨s, ⟨hs, _⟩, rfl⟩ := hstring k hk
    exact List.mem_map_of_mem hs
  have hfold := foldl_insertKey hsorted kept hmem fun _ => false
  rw [List.filter_false] at hfold
  rw [hfold]
  refine exists_strings (nodup_of_pairwise_lt (hsorted.sublist List.filter_sublist)) ?_
  intro k hk
  exact hstring k (by simpa using (List.mem_filter.mp hk).2)

/-- The keys of the `read` clauses. -/
theorem exists_readKeys_eq {source : Text} (h : ReadsApart source) :
    ∃ found : List StringAt, readKeys false source = found.map StringAt.content ∧ found.Nodup ∧
      ∀ s ∈ found, s ∈ (survey source).strings ∧ s.IsKey ∧
        ¬ s.IsTranslated (survey source).bars ∧ ¬ s.IsArgument (survey source).bars := by
  obtain ⟨read, hread, hsorted, htokens⟩ := exists_readTokens (x := []) (t := source) rfl
  rw [show readKeys false source = read.map QuotedKey.key from hread]
  refine exists_strings (nodup_of_pairwise_lt hsorted) fun k hk => ?_
  obtain ⟨_, htoken, hclause⟩ := htokens k hk
  obtain ⟨s, hs, hkey, hsame, hapart⟩ := h k htoken hclause
  exact ⟨s, ⟨hs, hkey, hapart⟩, hsame⟩

theorem interpolations_eq_nil {source : Text} (h : ¬ "\x7b\x7b".toList <:+: source) :
    interpolations source = [] := by
  unfold interpolations
  split
  · rfl
  · next body hcut => exact absurd ⟨_, body, (Text.eq_append_of_cut?_eq_some hcut).symm⟩ h

/-- The candidates of an expression without interpolations are strings of their own and no arguments
of pipes, provided that its tokens are strings and its `read` clauses stand apart from its pipes. -/
theorem reportsStrings_of_aligned (source : Text) (hbraces : ¬ "\x7b\x7b".toList <:+: source)
    (haligned : Aligned source) (hreads : ReadsApart source) : ReportsStrings source := by
  obtain ⟨piped, hpiped, hpipedNodup, hpipedFound⟩ := exists_pipedKeys_eq haligned
  obtain ⟨read, hread, hreadNodup, hreadFound⟩ := exists_readKeys_eq hreads
  refine ⟨piped ++ read, ?_, ?_, ?_⟩
  · simp [keys, interpolations_eq_nil hbraces, hpiped, hread]
  · refine List.nodup_append.mpr ⟨hpipedNodup, hreadNodup, ?_⟩
    rintro s hs t ht rfl
    exact (hreadFound s ht).2.2.1 (hpipedFound s hs).2.2.1
  · refine List.forall_mem_append.mpr ⟨fun s hs => ?_, fun s hs => ?_⟩
    · obtain ⟨hmem, hkey, _, hnot⟩ := hpipedFound s hs
      exact ⟨hmem, hkey.1, hnot⟩
    · obtain ⟨hmem, hkey, _, hnot⟩ := hreadFound s hs
      exact ⟨hmem, hkey.1, hnot⟩

theorem reportsStrings_of_pipe_and_clause :
    keys "('a.b' | transloco: 'x.y') + x; read: 'c.d'".toList = ["a.b".toList, "c.d".toList] ∧
      ReportsStrings "('a.b' | transloco: 'x.y') + x; read: 'c.d'".toList :=
  ⟨by decide +kernel, reportsStrings_of_aligned _ (by decide +kernel) (by decide +kernel)
    (by decide +kernel)⟩

theorem ReportsStrings.subperm {source : Text} (h : ReportsStrings source) :
    (keys source).Subperm (((survey source).strings.filter fun s =>
      isQuote s.quote && !decide (s.IsArgument (survey source).bars)).map StringAt.content) := by
  obtain ⟨found, hkeys, hnodup, hfound⟩ := h
  have hsubset : found ⊆ (survey source).strings.filter fun s =>
      isQuote s.quote && !decide (s.IsArgument (survey source).bars) := by
    intro s hs
    obtain ⟨hmem, hquote, hnot⟩ := hfound s hs
    exact List.mem_filter.mpr ⟨hmem, by simp [hquote, hnot]⟩
  obtain ⟨strings, hperm, hsublist⟩ := List.subperm_of_subset hnodup hsubset
  rw [hkeys]
  exact ⟨strings.map _, hperm.map _, hsublist.map _⟩

/-- A token that begins at the last quote of a string, a token that is found twice, and a token in
the arguments of a pipe. -/
theorem not_reportsStrings :
    ¬ ReportsStrings "'x'+a.b+'y' | transloco".toList ∧
      ¬ ReportsStrings "read: 'a.b' | transloco".toList ∧
      ¬ ReportsStrings "x | transloco: \x7b read: 'a.b' \x7d".toList :=
  ⟨fun h => absurd h.subperm (by decide +kernel), fun h => absurd h.subperm (by decide +kernel),
    fun h => absurd h.subperm (by decide +kernel)⟩

end KeyLint.Expression
