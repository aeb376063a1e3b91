import KeyLint.Glob.Basic
import KeyLint.Json.Printer
import KeyLint.Json.Reader
import KeyLint.Json.Record
import KeyLint.Settings

/-!
# Configurations

What a project configures: where its sources are, which of them are left out, and the options of the
rules. A configuration is kept in a JSON file, where every field may be left out.
-/

namespace KeyLint

/-- The options of both rules. -/
structure RuleOptions where
  keyNamingConvention : NamingOptions := {}
  noHardcodedStrings : WordingOptions := {}
deriving Repr, DecidableEq, Inhabited

/-- A project's configuration. -/
structure Config where
  /-- Files and directories that are left out, as paths or globs. -/
  ignores : List Text := []
  /-- Directories with sources, as paths or globs. -/
  includes : List Text := ["src".toList]
  /-- The directory that includes and ignores are seen from. -/
  sourceRoot : Text := "./".toList
  rules : RuleOptions := {}
deriving Repr, DecidableEq, Inhabited

/-! ## Writing -/

/-- Naming options as a value. -/
def NamingOptions.toJson (o : NamingOptions) : Json :=
  .object
    [("ignoredPrefixes".toList, Json.ofTexts o.ignoredPrefixes),
     ("stripFilePrefixes".toList, Json.ofTexts o.stripFilePrefixes),
     ("recognizePages".toList, .bool o.recognizePages)]

/-- Options of the hard-coded text rule as a value. -/
def WordingOptions.toJson (o : WordingOptions) : Json :=
  .object
    [("nonUserFacingPattern".toList, Json.ofText? o.nonUserFacingPattern),
     ("ignorePattern".toList, Json.ofText? o.ignorePattern)]

/-- The options of both rules as a value. -/
def RuleOptions.toJson (o : RuleOptions) : Json :=
  .object
    [("keyNamingConvention".toList, o.keyNamingConvention.toJson),
     ("noHardcodedStrings".toList, o.noHardcodedStrings.toJson)]

/-- A configuration as a value. -/
def Config.toJson (c : Config) : Json :=
  .object
    [("ignores".toList, Json.ofTexts c.ignores),
     ("includes".toList, Json.ofTexts c.includes),
     ("sourceRoot".toList, .str c.sourceRoot),
     ("rules".toList, c.rules.toJson)]

/-- The text that writes a configuration. -/
def Config.write (c : Config) : Text :=
  c.toJson.write

/-! ## Reading -/

/-- The fields of naming options. -/
def NamingOptions.fields : List (Json.Field NamingOptions) :=
  [.of "ignoredPrefixes" Json.texts? fun o v => { o with ignoredPrefixes := v },
   .of "stripFilePrefixes" Json.texts? fun o v => { o with stripFilePrefixes := v },
   .of "recognizePages" Json.bool? fun o v => { o with recognizePages := v }]

/-- The fields of the options of the hard-coded text rule. -/
def WordingOptions.fields : List (Json.Field WordingOptions) :=
  [.of "nonUserFacingPattern" Json.nullableText? fun o v => { o with nonUserFacingPattern := v },
   .of "ignorePattern" Json.nullableText? fun o v => { o with ignorePattern := v }]

/-- The fields of the options of both rules. -/
def RuleOptions.fields : List (Json.Field RuleOptions) :=
  [.of "keyNamingConvention" (Json.record? NamingOptions.fields {})
     fun o v => { o with keyNamingConvention := v },
   .of "noHardcodedStrings" (Json.record? WordingOptions.fields {})
     fun o v => { o with noHardcodedStrings := v }]

/-- The fields of a configuration. -/
def Config.fields : List (Json.Field Config) :=
  [.of "ignores" Json.texts? fun c v => { c with ignores := v },
   .of "includes" Json.texts? fun c v => { c with includes := v },
   .of "sourceRoot" Json.text? fun c v => { c with sourceRoot := v },
   .of "rules" (Json.record? RuleOptions.fields {}) fun c v => { c with rules := v }]

/-- The configuration that a value writes. -/
def Config.ofJson? (v : Json) : Option Config :=
  Json.record? Config.fields {} v

/-- The configuration that a text writes. -/
def Config.read? (t : Text) : Option Config :=
  (Json.parse? t).bind Config.ofJson?

/-! ## Faults -/

/-- A list of paths and globs in a configuration. -/
inductive PathList where
  | ignores
  | includes
deriving Repr, DecidableEq, Inhabited

/-- The name of a list of paths and globs. -/
def PathList.name : PathList → Text
  | .ignores => "ignores".toList
  | .includes => "includes".toList

/-- A glob of a configuration that cannot be read. -/
structure ConfigFault where
  list : PathList
  glob : Text
  error : Glob.Error
deriving Repr, DecidableEq, Inhabited

/-- What is said about a glob that cannot be read. -/
def ConfigFault.message (f : ConfigFault) : Text :=
  "Invalid glob pattern in '".toList ++ f.list.name ++ "': \"".toList ++ f.glob ++ "\"".toList

/-- The first text that cannot be read as a glob. -/
def globFault? (list : PathList) : List Text → Option ConfigFault
  | [] => none
  | t :: ts =>
    match Glob.parse t with
    | .error e => some ⟨list, t, e⟩
    | .ok _ => globFault? list ts

namespace Config

/-- The first fault of a configuration. An include without wildcards is a path, whatever brackets it
has. -/
def fault? (c : Config) : Option ConfigFault :=
  (globFault? .ignores c.ignores).or (globFault? .includes (c.includes.filter Glob.isWildcard))

/-- The options of a configuration, ready for use. -/
def settings (c : Config) : Settings :=
  Settings.ofOptions c.rules.keyNamingConvention c.rules.noHardcodedStrings

end Config

end KeyLint
