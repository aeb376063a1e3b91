import KeyLint.Proofs.Project.Configuration

/-!
# Configurations with fields left out

A configuration may give any of its fields, at every level, in any order, and keeps the defaults of
the others. What is not a field of it, or not the value of one, is refused wherever it stands.
-/

namespace KeyLint

/-! ## The fields that are given -/

/-- Naming options with the fields that are given. -/
structure NamingOptions.Given where
  ignoredPrefixes : Option (List Text) := none
  stripFilePrefixes : Option (List Text) := none
  recognizePages : Option Bool := none

namespace NamingOptions.Given

def options (given : Given) : NamingOptions where
  ignoredPrefixes := given.ignoredPrefixes.getD []
  stripFilePrefixes := given.stripFilePrefixes.getD ["feature-".toList, "ui-".toList]
  recognizePages := given.recognizePages.getD true

def Writes (given : Given) (v : Json) : Prop :=
  Json.WritesRecord
    [("ignoredPrefixes".toList, given.ignoredPrefixes.map Json.ofTexts),
     ("stripFilePrefixes".toList, given.stripFilePrefixes.map Json.ofTexts),
     ("recognizePages".toList, given.recognizePages.map .bool)] v

end NamingOptions.Given

/-- Options of the hard-coded text rule with the fields that are given, which may be null. -/
structure WordingOptions.Given where
  nonUserFacingPattern : Option (Option Text) := none
  ignorePattern : Option (Option Text) := none

namespace WordingOptions.Given

def options (given : Given) : WordingOptions where
  nonUserFacingPattern := given.nonUserFacingPattern.getD none
  ignorePattern := given.ignorePattern.getD none

def Writes (given : Given) (v : Json) : Prop :=
  Json.WritesRecord
    [("nonUserFacingPattern".toList, given.nonUserFacingPattern.map Json.ofText?),
     ("ignorePattern".toList, given.ignorePattern.map Json.ofText?)] v

end WordingOptions.Given

/-- The options of both rules with the fields that are given. -/
structure RuleOptions.Given where
  keyNamingConvention : Option NamingOptions.Given := none
  noHardcodedStrings : Option WordingOptions.Given := none

namespace RuleOptions.Given

def options (given : Given) : RuleOptions where
  keyNamingConvention := (given.keyNamingConvention.getD {}).options
  noHardcodedStrings := (given.noHardcodedStrings.getD {}).options

def Writes (given : Given) (v : Json) : Prop :=
  ∃ naming wording, Option.Rel NamingOptions.Given.Writes given.keyNamingConvention naming ∧
    Option.Rel WordingOptions.Given.Writes given.noHardcodedStrings wording ∧
    Json.WritesRecord
      [("keyNamingConvention".toList, naming), ("noHardcodedStrings".toList, wording)] v

end RuleOptions.Given

/-- A configuration with the fields that are given. -/
structure Config.Given where
  ignores : Option (List Text) := none
  includes : Option (List Text) := none
  sourceRoot : Option Text := none
  rules : Option RuleOptions.Given := none

namespace Config.Given

def config (given : Given) : Config where
  ignores := given.ignores.getD []
  includes := given.includes.getD ["src".toList]
  sourceRoot := given.sourceRoot.getD "./".toList
  rules := (given.rules.getD {}).options

def Writes (given : Given) (v : Json) : Prop :=
  ∃ rules, Option.Rel RuleOptions.Given.Writes given.rules rules ∧
    Json.WritesRecord
      [("ignores".toList, given.ignores.map Json.ofTexts),
       ("includes".toList, given.includes.map Json.ofTexts),
       ("sourceRoot".toList, given.sourceRoot.map .str),
       ("rules".toList, rules)] v

end Config.Given

/-! ## Reading what is given -/

theorem NamingOptions.commutes_fields : NamingOptions.fields.Pairwise Json.Field.Commutes := by
  simp [NamingOptions.fields, Json.Field.commutes_of]

theorem NamingOptions.Given.record?_of_writes (given : Given) (v : Json) (h : given.Writes v) :
    Json.record? NamingOptions.fields {} v = some given.options := by
  have hbool : ∀ b, Json.bool? (.bool b) = some b := fun _ => rfl
  rw [Json.WritesRecord.record?_eq h rfl (by decide) NamingOptions.commutes_fields]
  simp only [NamingOptions.fields, List.map_cons, List.map_nil]
  rw [Json.setGiven_map Json.texts?_ofTexts, Json.setGiven_map Json.texts?_ofTexts,
    Json.setGiven_map hbool]
  obtain ⟨ignored, strip, pages⟩ := given
  cases ignored <;> cases strip <;> cases pages <;> rfl

theorem WordingOptions.commutes_fields : WordingOptions.fields.Pairwise Json.Field.Commutes := by
  simp [WordingOptions.fields, Json.Field.commutes_of]

theorem WordingOptions.Given.record?_of_writes (given : Given) (v : Json) (h : given.Writes v) :
    Json.record? WordingOptions.fields {} v = some given.options := by
  rw [Json.WritesRecord.record?_eq h rfl (by decide) WordingOptions.commutes_fields]
  simp only [WordingOptions.fields, List.map_cons, List.map_nil]
  rw [Json.setGiven_map Json.nullableText?_ofText?, Json.setGiven_map Json.nullableText?_ofText?]
  obtain ⟨names, texts⟩ := given
  cases names <;> cases texts <;> rfl

theorem RuleOptions.commutes_fields : RuleOptions.fields.Pairwise Json.Field.Commutes := by
  simp [RuleOptions.fields, Json.Field.commutes_of]

theorem RuleOptions.Given.record?_of_writes (given : Given) (v : Json) (h : given.Writes v) :
    Json.record? RuleOptions.fields {} v = some given.options := by
  obtain ⟨naming, wording, hnaming, hwording, h⟩ := h
  rw [h.record?_eq rfl (by decide) RuleOptions.commutes_fields]
  simp only [RuleOptions.fields, List.map_cons, List.map_nil]
  rw [Json.setGiven_of NamingOptions.Given.record?_of_writes hnaming,
    Json.setGiven_of WordingOptions.Given.record?_of_writes hwording]
  obtain ⟨naming?, wording?⟩ := given
  cases naming? <;> cases wording? <;> rfl

theorem Config.commutes_fields : Config.fields.Pairwise Json.Field.Commutes := by
  simp [Config.fields, Json.Field.commutes_of]

theorem Config.Given.ofJson?_of_writes (given : Given) (v : Json) (h : given.Writes v) :
    Config.ofJson? v = some given.config := by
  have htext : ∀ t, Json.text? (.str t) = some t := fun _ => rfl
  obtain ⟨rules, hrules, h⟩ := h
  rw [Config.ofJson?, h.record?_eq rfl (by decide) Config.commutes_fields]
  simp only [Config.fields, List.map_cons, List.map_nil]
  rw [Json.setGiven_map Json.texts?_ofTexts, Json.setGiven_map Json.texts?_ofTexts,
    Json.setGiven_map htext,
    Json.setGiven_of RuleOptions.Given.record?_of_writes hrules]
  obtain ⟨ignores, includes, root, rules?⟩ := given
  cases ignores <;> cases includes <;> cases root <;> cases rules? <;> rfl

/-! ## Texts of what is given -/

theorem Json.hasNumbers_of_map {β : Type} {write : β → Json} (hwrite : ∀ x, (write x).HasNumbers)
    {x? : Option β} : ∀ v ∈ x?.map write, v.HasNumbers := by
  intro v hv
  obtain ⟨x, _, rfl⟩ := Option.map_eq_some_iff.mp hv
  exact hwrite x

theorem Json.hasNumbers_of_rel {γ : Type} {writes : γ → Json → Prop}
    (hwrites : ∀ x v, writes x v → v.HasNumbers) {x? : Option γ} {v? : Option Json}
    (h : Option.Rel writes x? v?) : ∀ v ∈ v?, v.HasNumbers := by
  cases h with
  | none => simp
  | some hv =>
      intro v hmem
      obtain rfl := Option.mem_some_iff.mp hmem
      exact hwrites _ _ hv

theorem NamingOptions.Given.hasNumbers (given : Given) (v : Json) (h : given.Writes v) :
    v.HasNumbers := by
  have hbool : ∀ b, (Json.bool b).HasNumbers := fun _ => trivial
  refine Json.WritesRecord.hasNumbers h ?_
  simp only [List.forall_mem_cons]
  exact ⟨Json.hasNumbers_of_map Json.hasNumbers_ofTexts,
    Json.hasNumbers_of_map Json.hasNumbers_ofTexts, Json.hasNumbers_of_map hbool, by simp⟩

theorem WordingOptions.Given.hasNumbers (given : Given) (v : Json) (h : given.Writes v) :
    v.HasNumbers := by
  refine Json.WritesRecord.hasNumbers h ?_
  simp only [List.forall_mem_cons]
  exact ⟨Json.hasNumbers_of_map Json.hasNumbers_ofText?,
    Json.hasNumbers_of_map Json.hasNumbers_ofText?, by simp⟩

theorem RuleOptions.Given.hasNumbers (given : Given) (v : Json) (h : given.Writes v) :
    v.HasNumbers := by
  obtain ⟨naming, wording, hnaming, hwording, h⟩ := h
  refine h.hasNumbers ?_
  simp only [List.forall_mem_cons]
  exact ⟨Json.hasNumbers_of_rel NamingOptions.Given.hasNumbers hnaming,
    Json.hasNumbers_of_rel WordingOptions.Given.hasNumbers hwording, by simp⟩

theorem Config.Given.hasNumbers (given : Given) (v : Json) (h : given.Writes v) :
    v.HasNumbers := by
  have htext : ∀ t, (Json.str t).HasNumbers := fun _ => trivial
  obtain ⟨rules, hrules, h⟩ := h
  refine h.hasNumbers ?_
  simp only [List.forall_mem_cons]
  exact ⟨Json.hasNumbers_of_map Json.hasNumbers_ofTexts,
    Json.hasNumbers_of_map Json.hasNumbers_ofTexts, Json.hasNumbers_of_map htext,
    Json.hasNumbers_of_rel RuleOptions.Given.hasNumbers hrules, by simp⟩

/-! ## What is refused -/

def NamingOptions.shape : Json.Shape :=
  .record [("ignoredPrefixes".toList, .value), ("stripFilePrefixes".toList, .value),
    ("recognizePages".toList, .value)]

def WordingOptions.shape : Json.Shape :=
  .record [("nonUserFacingPattern".toList, .nullable), ("ignorePattern".toList, .nullable)]

def RuleOptions.shape : Json.Shape :=
  .record [("keyNamingConvention".toList, NamingOptions.shape),
    ("noHardcodedStrings".toList, WordingOptions.shape)]

/-- The shape of a configuration. -/
def Config.shape : Json.Shape :=
  .record [("ignores".toList, .value), ("includes".toList, .value), ("sourceRoot".toList, .value),
    ("rules".toList, RuleOptions.shape)]

theorem Json.texts?_eq_none {v : Json} (h : Shape.value.Refuses v) : texts? v = none := by
  cases h
  rfl

theorem NamingOptions.record?_eq_none {v : Json} (h : NamingOptions.shape.Refuses v) :
    Json.record? NamingOptions.fields {} v = none := by
  have hbool : ∀ v, Json.Shape.value.Refuses v → Json.bool? v = none := by
    rintro v (_ | _)
    rfl
  refine Json.record?_eq_none_of_refuses ?_ (show (NamingOptions.fields.map _).Nodup by decide) h {}
  exact .cons (Json.Field.refuses_of fun _ => Json.texts?_eq_none)
    (.cons (Json.Field.refuses_of fun _ => Json.texts?_eq_none)
      (.cons (Json.Field.refuses_of hbool) .nil))

theorem WordingOptions.record?_eq_none {v : Json} (h : WordingOptions.shape.Refuses v) :
    Json.record? WordingOptions.fields {} v = none := by
  have hnullable : ∀ v, Json.Shape.nullable.Refuses v → Json.nullableText? v = none := nofun
  refine Json.record?_eq_none_of_refuses ?_ (show (WordingOptions.fields.map _).Nodup by decide) h {}
  exact .cons (Json.Field.refuses_of hnullable) (.cons (Json.Field.refuses_of hnullable) .nil)

theorem RuleOptions.record?_eq_none {v : Json} (h : RuleOptions.shape.Refuses v) :
    Json.record? RuleOptions.fields {} v = none := by
  refine Json.record?_eq_none_of_refuses ?_ (show (RuleOptions.fields.map _).Nodup by decide) h {}
  exact .cons (Json.Field.refuses_of fun _ => NamingOptions.record?_eq_none)
    (.cons (Json.Field.refuses_of fun _ => WordingOptions.record?_eq_none) .nil)

theorem Config.ofJson?_eq_none {v : Json} (h : Config.shape.Refuses v) :
    Config.ofJson? v = none := by
  have htext : ∀ v, Json.Shape.value.Refuses v → Json.text? v = none := by
    rintro v (_ | _)
    rfl
  refine Json.record?_eq_none_of_refuses ?_ (show (Config.fields.map _).Nodup by decide) h {}
  exact .cons (Json.Field.refuses_of fun _ => Json.texts?_eq_none)
    (.cons (Json.Field.refuses_of fun _ => Json.texts?_eq_none)
      (.cons (Json.Field.refuses_of htext)
        (.cons (Json.Field.refuses_of fun _ => RuleOptions.record?_eq_none) .nil)))

/-! ## Configurations -/

/-- However a configuration is written, the fields that are given have their values and all others
their defaults, at every level. An array stands for the members with the names of the first fields.
What is refused at any level is refused for the whole configuration. -/
theorem Config.decodes_given :
    (∀ (given : Config.Given) (v : Json), given.Writes v →
      Config.read? v.write = some given.config ∧
        ∀ t, Json.parse? t = some v → Config.read? t = some given.config) ∧
    (∀ items : List Json,
      (items.length ≤ 3 →
        Json.record? NamingOptions.fields {} (.array items)
          = Json.record? NamingOptions.fields {} (.object
            (["ignoredPrefixes".toList, "stripFilePrefixes".toList, "recognizePages".toList].zip
              items))) ∧
      (items.length ≤ 2 →
        Json.record? WordingOptions.fields {} (.array items)
          = Json.record? WordingOptions.fields {} (.object
            (["nonUserFacingPattern".toList, "ignorePattern".toList].zip items))) ∧
      (items.length ≤ 2 →
        Json.record? RuleOptions.fields {} (.array items)
          = Json.record? RuleOptions.fields {} (.object
            (["keyNamingConvention".toList, "noHardcodedStrings".toList].zip items))) ∧
      (items.length ≤ 4 →
        Config.ofJson? (.array items)
          = Config.ofJson? (.object
            (["ignores".toList, "includes".toList, "sourceRoot".toList, "rules".toList].zip
              items)))) ∧
    ∀ t v, Json.parse? t = some v → Config.shape.Refuses v → Config.read? t = none := by
  have hread : ∀ {t v}, Json.parse? t = some v → Config.read? t = Config.ofJson? v := by
    intro t v hparse
    rw [Config.read?, hparse]
    rfl
  refine ⟨fun given v hwrites => ?_, fun items => ⟨?_, ?_, ?_, ?_⟩, fun t v hparse hrefuses => ?_⟩
  · have hconfig := given.ofJson?_of_writes v hwrites
    refine ⟨?_, fun t hparse => (hread hparse).trans hconfig⟩
    exact (hread (Json.parse?_write (given.hasNumbers v hwrites))).trans hconfig
  · exact fun hlength => (Json.record?_zip NamingOptions.fields (by decide) items hlength {}).symm
  · exact fun hlength => (Json.record?_zip WordingOptions.fields (by decide) items hlength {}).symm
  · exact fun hlength => (Json.record?_zip RuleOptions.fields (by decide) items hlength {}).symm
  · exact fun hlength => (Json.record?_zip Config.fields (by decide) items hlength {}).symm
  · rw [hread hparse, Config.ofJson?_eq_none hrefuses]

/-- The rules come before the ignores, and the naming options are an array with the first of their
fields. An unknown name in naming options is refused where all arrays around it are in order. -/
theorem Config.decodes_rules_first :
    Config.read? (Json.write (.object
        [("rules".toList, .object [("keyNamingConvention".toList,
          .array [.array [.str "a.".toList]])]),
         ("ignores".toList, .array [.str "b".toList])]))
      = some { ignores := ["b".toList],
               rules := { keyNamingConvention := { ignoredPrefixes := ["a.".toList] } } } ∧
    Config.ofJson? (.array [.array [.str "b".toList]])
      = Config.ofJson? (.object [("ignores".toList, .array [.str "b".toList])]) ∧
    Config.read? (Json.write (.array
        [.array [], .array [], .str [], .array [.object [("prefixes".toList, .array [])]]]))
      = none := by
  obtain ⟨hgiven, harray, hrefused⟩ := Config.decodes_given
  refine ⟨?_, ?_, ?_⟩
  · let naming : NamingOptions.Given := { ignoredPrefixes := some ["a.".toList] }
    let rules : RuleOptions.Given := { keyNamingConvention := some naming }
    have hnaming : naming.Writes (.array [.array [.str "a.".toList]]) := .array (n := 2) rfl
    have hrules : rules.Writes
        (.object [("keyNamingConvention".toList, .array [.array [.str "a.".toList]])]) :=
      ⟨_, none, .some hnaming, .none, .object (.refl _)⟩
    refine (hgiven { ignores := some ["b".toList], rules := some rules } _ ?_).1
    exact ⟨_, .some hrules, .object (.swap _ _ _)⟩
  · exact (harray [.array [.str "b".toList]]).2.2.2 (by decide)
  · refine hrefused _ _ (Json.parse?_write ?_) ?_
    · exact ⟨trivial, trivial, trivial, ⟨⟨trivial, trivial⟩, trivial⟩, trivial⟩
    · refine .item (.tail _ (.tail _ (.tail _ (.head _)))) (.item (.head _) ?_)
      exact .unknown List.mem_cons_self (by decide)

-- The same value as a text, and a pattern that is null.
example : Config.read?
    "\x7b\"rules\": \x7b\"noHardcodedStrings\": [null], \"keyNamingConvention\": \x7b\x7d\x7d\x7d".toList
      = some {} := by
  decide +kernel

end KeyLint
