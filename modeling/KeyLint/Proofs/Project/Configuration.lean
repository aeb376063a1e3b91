import KeyLint.Command.Run
import KeyLint.Proofs.Json.Records
import KeyLint.Proofs.Project.Discovery

/-!
# Configurations that were written

A configuration that is written is read back as it was, whatever its texts are. In particular the
file that a new project gets holds the default configuration, and that is what is loaded from it.
-/

namespace KeyLint

/-! ## Configurations as values -/

theorem NamingOptions.record?_toJson (o : NamingOptions) :
    Json.record? NamingOptions.fields {} o.toJson = some o := by
  have hread := Json.record?_zip NamingOptions.fields (by decide)
    [Json.ofTexts o.ignoredPrefixes, Json.ofTexts o.stripFilePrefixes, .bool o.recognizePages]
    (Nat.le_refl 3) {}
  refine hread.trans ?_
  have hbool : Json.bool? (.bool o.recognizePages) = some o.recognizePages := rfl
  rw [NamingOptions.fields, Json.setItems_of (Json.texts?_ofTexts _),
    Json.setItems_of (Json.texts?_ofTexts _), Json.setItems_of hbool]
  rfl

theorem WordingOptions.record?_toJson (o : WordingOptions) :
    Json.record? WordingOptions.fields {} o.toJson = some o := by
  have hread := Json.record?_zip WordingOptions.fields (by decide)
    [Json.ofText? o.nonUserFacingPattern, Json.ofText? o.ignorePattern] (Nat.le_refl 2) {}
  refine hread.trans ?_
  rw [WordingOptions.fields, Json.setItems_of (Json.nullableText?_ofText? _),
    Json.setItems_of (Json.nullableText?_ofText? _)]
  rfl

theorem RuleOptions.record?_toJson (o : RuleOptions) :
    Json.record? RuleOptions.fields {} o.toJson = some o := by
  have hread := Json.record?_zip RuleOptions.fields (by decide)
    [o.keyNamingConvention.toJson, o.noHardcodedStrings.toJson] (Nat.le_refl 2) {}
  refine hread.trans ?_
  rw [RuleOptions.fields, Json.setItems_of (NamingOptions.record?_toJson _),
    Json.setItems_of (WordingOptions.record?_toJson _)]
  rfl

theorem Config.ofJson?_toJson (c : Config) : Config.ofJson? c.toJson = some c := by
  have hread := Json.record?_zip Config.fields (by decide)
    [Json.ofTexts c.ignores, Json.ofTexts c.includes, .str c.sourceRoot, c.rules.toJson]
    (Nat.le_refl 4) {}
  refine hread.trans ?_
  have hroot : Json.text? (.str c.sourceRoot) = some c.sourceRoot := rfl
  rw [Config.fields, Json.setItems_of (Json.texts?_ofTexts _),
    Json.setItems_of (Json.texts?_ofTexts _), Json.setItems_of hroot,
    Json.setItems_of (RuleOptions.record?_toJson _)]
  rfl

/-! ## Configurations as texts -/

theorem Config.hasNumbers_toJson (c : Config) : c.toJson.HasNumbers := by
  have hnaming : c.rules.keyNamingConvention.toJson.HasNumbers :=
    ⟨Json.hasNumbers_ofTexts _, Json.hasNumbers_ofTexts _, trivial, trivial⟩
  have hwording : c.rules.noHardcodedStrings.toJson.HasNumbers :=
    ⟨Json.hasNumbers_ofText? _, Json.hasNumbers_ofText? _, trivial⟩
  have hrules : c.rules.toJson.HasNumbers := ⟨hnaming, hwording, trivial⟩
  exact ⟨Json.hasNumbers_ofTexts _, Json.hasNumbers_ofTexts _, trivial, hrules, trivial⟩

theorem Config.read?_write (c : Config) : Config.read? c.write = some c := by
  rw [Config.read?, Config.write, Json.parse?_write c.hasNumbers_toJson]
  exact c.ofJson?_toJson

/-! ## The configuration of a new project -/

namespace Discovery

/-- A configuration without faults that is written into the working directory is loaded from
there. -/
theorem loadConfig_write (fs : FileSystem) {c : Config} (hfault : c.fault? = none) :
    loadConfig (fs.write (Path.join ".".toList configName) c.write) ".".toList
      = .ok ⟨c, true⟩ := by
  generalize hpath : Path.join ".".toList configName = path
  have hnames : fs.names path = fs.workingDirectory ++ [configName] := by
    subst hpath
    rfl
  have hdir := FileSystem.isDirectoryAt_put hnames (.file (some c.write))
  have hfile := fs.find?_put path (.file (some c.write))
  rw [hnames] at hfile
  generalize hnew : fs.put path (.file (some c.write)) = new at hdir hfile
  have hwork : new.workingDirectory = fs.workingDirectory := by
    subst hnew
    rfl
  rw [FileSystem.write, hnew]
  rw [← hwork] at hdir hfile
  have hfollow : new.follow ".".toList = .ok new.workingDirectory := by
    refine (new.foldlM_singleton _ _).trans ?_
    exact (FileSystem.step_of_idle rfl).mpr ⟨hdir, rfl⟩
  have hholds : new.holds new.workingDirectory configName = true := by
    simp [FileSystem.holds, hfile]
  have hhas := FileSystem.has_join isName_configName hfollow hdir
  have hlocate := FileSystem.locate_join isName_configName hfollow hdir hholds
  rw [hpath] at hhas hlocate
  have hfind : findConfig new ".".toList = some path := by
    rw [findConfig, Path.ancestors, firstConfig, hpath, hhas, if_pos hholds]
  have hread : new.read? path = some c.write := by
    simp [FileSystem.read?, FileSystem.get, hlocate, hfile]
  simp only [loadConfig, hfind, readConfig, hread, c.read?_write, hfault]
  rfl

end Discovery

/-- A configuration is read back from the text that writes it. The file that a new project gets
holds the default configuration, and it is loaded from the directory where it was written. -/
theorem written_config_loads :
    (∀ c : Config, Config.read? c.write = some c) ∧
      ∀ fs : FileSystem,
        fs.has (Path.join ".".toList Discovery.configName) = false →
          ∃ result path text, Command.run fs .init = .ok result ∧ result.written = [(path, text)] ∧
            Discovery.loadConfig (fs.write path text) ".".toList = .ok ⟨{}, true⟩ := by
  refine ⟨Config.read?_write, fun fs hnew => ?_⟩
  refine ⟨_, Path.join ".".toList Discovery.configName, Config.write {}, rfl, ?_, ?_⟩
  · dsimp only [Result.ofInit]
    rw [if_neg (Bool.eq_false_iff.mp hnew)]
  · exact Discovery.loadConfig_write fs rfl

theorem written_config_loads_in_empty_directory :
    Config.read? (Config.write { ignores := ["\"\\\x01\x7f\u2028😀".toList, []], includes := [] })
        = some { ignores := ["\"\\\x01\x7f\u2028😀".toList, []], includes := [] } ∧
      FileSystem.has ⟨.directory [], []⟩ (Path.join ".".toList Discovery.configName) = false ∧
      ∃ result path text, Command.run ⟨.directory [], []⟩ .init = .ok result ∧
        result.written = [(path, text)] ∧
        Discovery.loadConfig (FileSystem.write ⟨.directory [], []⟩ path text) ".".toList
          = .ok ⟨{}, true⟩ :=
  have hnew : FileSystem.has ⟨.directory [], []⟩ (Path.join ".".toList Discovery.configName)
      = false := by decide
  ⟨written_config_loads.1 _, hnew, written_config_loads.2 _ hnew⟩

end KeyLint
