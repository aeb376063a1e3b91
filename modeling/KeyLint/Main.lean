import KeyLint.Command.Run

/-!
# The program

Loads the directories that a command looks at, runs the command, writes the files that it writes and
says what it says. Links in a directory are left out.
-/

namespace KeyLint.Program

/-- The file or directory that an entry leads to, with all that is in it. -/
partial def loadEntry (entry : IO.FS.DirEntry) : IO FileTree := do
  if ← entry.path.isDir then
    let mut entries := []
    for inner in ← entry.path.readDir do
      match (← inner.path.symlinkMetadata).type with
      | .dir | .file => entries := (inner.fileName.toList, ← loadEntry inner) :: entries
      | _ => pure ()
    return .directory entries.reverse
  else
    return .file ((String.fromUTF8? (← IO.FS.readBinFile entry.path)).map String.toList)

/-- The entry of the working directory with a path. -/
def entryOf (path : Text) : IO IO.FS.DirEntry := do
  return ⟨← IO.currentDir, String.ofList path⟩

/-- The file system that has the working directory, with nothing in it yet. -/
def emptySystem : IO FileSystem := do
  let names := ((← IO.currentDir).components.filter fun name => !name.isEmpty).map String.toList
  return ⟨FileTree.insert (.directory []) names (.directory []), names⟩

/-- The file system with what is at a path on disk, if there is anything. -/
def loadPath (fs : FileSystem) (path : Text) : IO FileSystem := do
  let entry ← entryOf path
  if ← entry.path.pathExists then return fs.put path (← loadEntry entry) else return fs

/-- The file system with what is at a path on disk, if it is not there already. -/
def loadMissing (fs : FileSystem) (path : Text) : IO FileSystem := do
  if fs.has path then return fs else loadPath fs path

/-- The file system with what a check of the directory `root` looks at. -/
def loadProject (fs : FileSystem) (root : Text) : IO FileSystem := do
  let mut fs ← loadPath fs root
  for path in Path.ancestors root do
    fs ← loadMissing fs (Path.join path Discovery.configName)
    fs ← loadMissing fs (Path.join path Discovery.repositoryMark)
  match Discovery.loadConfig fs root with
  | .error _ => return fs
  | .ok loaded =>
    let base := scanBase root loaded.config.sourceRoot
    fs ← loadMissing fs base
    for path in loaded.config.includes do
      fs ← loadMissing fs (Path.join base path)
    return fs

/-- The file system with what a command looks at. -/
def loadFor (command : Command) : IO FileSystem := do
  let fs ← emptySystem
  match command with
  | .overview => return fs
  | .init => loadPath fs Discovery.configName
  | .check options _ => loadProject fs options.root

/-- What is said about a command line that asks for no command. -/
def usageText : UsageError → String
  | .displayHelp => String.ofList overview
  | .displayVersion => "ngi18n 0.1.0\n"
  | .invalidSubcommand => "error: unrecognized subcommand\n"
  | .invalidValue => "error: invalid value\n"
  | .unknownArgument => "error: unexpected argument found\n"
  | .argumentConflict => "error: an argument cannot be used multiple times\n"
  | .tooManyValues => "error: unexpected value for an argument found\n"

/-- Tells what a command line that asks for no command deserves. -/
def refuse (e : UsageError) : IO UInt32 := do
  match e with
  | .displayHelp | .displayVersion =>
    IO.print (usageText e)
    return 0
  | _ =>
    IO.eprint (usageText e)
    return 2

/-- Runs a command. -/
def perform (command : Command) : IO UInt32 := do
  match command.run (← loadFor command) with
  | .error e =>
    IO.eprintln ("Error: " ++ String.ofList e.message)
    return 2
  | .ok result =>
    let colored ← (← IO.getStdout).isTty
    for (path, text) in result.written do
      IO.FS.writeFile (← entryOf path).path (String.ofList text)
    IO.eprint (String.ofList (Styled.renderLines colored result.notes))
    IO.print (String.ofList (Styled.render colored result.output.runs))
    return result.code.toUInt32

end KeyLint.Program

/-- Runs the command that the words of the command line describe. -/
def main (words : List String) : IO UInt32 :=
  match KeyLint.Arguments.parse (words.map String.toList) with
  | .error e => KeyLint.Program.refuse e
  | .ok command => KeyLint.Program.perform command
