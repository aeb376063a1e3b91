import KeyLint.Config
import KeyLint.FileSystem

/-!
# Finding a configuration

The configuration of a directory is the file of the nearest directory upwards, found by cutting
components off the path. A directory that holds a repository is the last one looked at.
-/

namespace KeyLint.Discovery

/-- The name of the file that holds a configuration. -/
def configName : Text := ".ngi18nrc.json".toList

/-- The name that marks the top of a repository. -/
def repositoryMark : Text := ".git".toList

/-- The path of the configuration file in the first of some directories that has one, if none of
those before it holds a repository. -/
def firstConfig (fs : FileSystem) : (directories : List Text) → Option Text
  | [] => none
  | path :: paths =>
    if fs.has (Path.join path configName) then some (Path.join path configName)
    else if fs.has (Path.join path repositoryMark) then none
    else firstConfig fs paths

/-- The path of the configuration file for the directory `path`. -/
def findConfig (fs : FileSystem) (path : Text) : Option Text :=
  firstConfig fs (Path.ancestors path)

/-- Why a configuration cannot be used. -/
inductive LoadError where
  | unreadable (path : Text)
  | malformed (path : Text)
  | invalid (fault : ConfigFault)
deriving Repr, DecidableEq, Inhabited

/-- What is said about a configuration that cannot be used. -/
def LoadError.message : LoadError → Text
  | .unreadable path => "Failed to read config file: ".toList ++ path
  | .malformed path => "Failed to parse config file: ".toList ++ path
  | .invalid fault => fault.message

/-- A configuration, and whether it was read from a file. -/
structure Loaded where
  config : Config := {}
  isFromFile : Bool := false
deriving Repr, DecidableEq, Inhabited

/-- The configuration in the file `path`. -/
def readConfig (fs : FileSystem) (path : Text) : Except LoadError Config :=
  match fs.read? path with
  | none => .error (.unreadable path)
  | some text =>
    match Config.read? text with
    | none => .error (.malformed path)
    | some config =>
      match config.fault? with
      | some fault => .error (.invalid fault)
      | none => .ok config

/-- The configuration for the directory `path`; the default one if there is no file. -/
def loadConfig (fs : FileSystem) (path : Text) : Except LoadError Loaded :=
  match findConfig fs path with
  | none => .ok {}
  | some file => (readConfig fs file).map fun config => ⟨config, true⟩

end KeyLint.Discovery
