import KeyLint.Project.Check

/-!
# Command lines

The words of a command line name a command and its options. Words are read from left to right. The
values of an option, and names of rules, are looked at only when the next option that is known, or
the end, is reached; a word that is no option at all is refused at once.
-/

namespace KeyLint

/-- How the outcome of a check is written. -/
inductive OutputFormat where
  | text
  | json
deriving Repr, DecidableEq, Inhabited

/-- What to do. -/
inductive Command where
  /-- Tell what the commands are. -/
  | overview
  /-- Check a project. -/
  | check (options : CheckOptions) (format : OutputFormat)
  /-- Write a configuration. -/
  | init
deriving Repr, DecidableEq, Inhabited

/-- Why a command line asks for no command: it asks for help or the version, or it is wrong. -/
inductive UsageError where
  | displayHelp
  | displayVersion
  | invalidSubcommand
  | invalidValue
  | unknownArgument
  | argumentConflict
  | tooManyValues
deriving Repr, DecidableEq, Inhabited

namespace Arguments

/-! ## Words -/

/-- What a word looks like. -/
inductive Shape where
  /-- Two hyphens alone: only plain words follow. -/
  | separator
  /-- Two hyphens and a name, with a value after an equals sign or without. -/
  | long (name : Text) (value : Option Text)
  /-- A hyphen and letters, each an option of its own. -/
  | short (letters : Text)
  | plain
deriving Repr, DecidableEq, Inhabited

/-- The shape of a word. -/
def shape : Text → Shape
  | ['-', '-'] => .separator
  | '-' :: '-' :: word =>
    match Text.cut? ['='] word with
    | none => .long word none
    | some (name, value) => .long name (some value)
  | '-' :: c :: letters => .short (c :: letters)
  | _ => .plain

/-- The rule that a word names. -/
def ruleName? (word : Text) : Option RuleName :=
  if word = "naming".toList then some .naming
  else if word = "hardcoded".toList then some .wording
  else none

/-- The format that a word names. -/
def format? (word : Text) : Option OutputFormat :=
  if word = "text".toList then some .text
  else if word = "json".toList then some .json
  else none

/-! ## The options of a check -/

/-- An option that takes a value. -/
inductive ValueOption where
  | sourceRoot
  | format
deriving Repr, DecidableEq, Inhabited

/-- The option that takes a value and has a name. -/
def valueOption? (name : Text) : Option ValueOption :=
  if name = "source-root".toList then some .sourceRoot
  else if name = "format".toList then some .format
  else none

/-- Words that are not looked at yet. -/
inductive Pending where
  | nothing
  | names (words : List Text)
  | value (option : ValueOption) (word : Option Text)
deriving Repr, DecidableEq, Inhabited

/-- What has been read of the options of a check. -/
structure Reading where
  rules : List RuleName := []
  root : Option Text := none
  format : Option OutputFormat := none
  verbose : Bool := false
  pending : Pending := .nothing
deriving Repr, DecidableEq, Inhabited

namespace Reading

/-- Sets an option, once. -/
def setOption (r : Reading) (option : ValueOption) (word : Text) : Except UsageError Reading :=
  match option with
  | .sourceRoot =>
    if r.root.isSome then .error .argumentConflict
    else if word.isEmpty then .error .invalidValue
    else .ok { r with root := some word }
  | .format =>
    if r.format.isSome then .error .argumentConflict
    else
      match format? word with
      | none => .error .invalidValue
      | some format => .ok { r with format := some format }

/-- Looks at the words that are pending. -/
def settle (r : Reading) : Except UsageError Reading :=
  let settled := { r with pending := .nothing }
  match r.pending with
  | .nothing => .ok settled
  | .names words =>
    match words.mapM ruleName? with
    | none => .error .invalidValue
    | some names => .ok { settled with rules := r.rules ++ names }
  | .value _ none => .error .invalidValue
  | .value option (some word) => settled.setOption option word

/-- The reading after the option for details. -/
def setVerbose (r : Reading) : Except UsageError Reading :=
  match r.settle with
  | .error e => .error e
  | .ok r => if r.verbose then .error .argumentConflict else .ok { r with verbose := true }

/-- The refusal that shows help instead. -/
def showHelp (r : Reading) : UsageError :=
  match r.settle with
  | .error e => e
  | .ok _ => .displayHelp

/-- The reading after options of one letter each. -/
def addShort (r : Reading) : Text → Except UsageError Reading
  | [] => .ok r
  | c :: letters =>
    if c = 'v' then
      match r.setVerbose with
      | .error e => .error e
      | .ok r => addShort r letters
    else if c = 'h' then .error r.showHelp
    else .error .unknownArgument

/-- The reading after an option with a name. -/
def addLong (r : Reading) (name : Text) (value : Option Text) : Except UsageError Reading :=
  if name = "verbose".toList then
    if value.isSome then .error .tooManyValues else r.setVerbose
  else if name = "help".toList then
    if value.isSome then .error .tooManyValues else .error r.showHelp
  else
    match valueOption? name with
    | none => .error .unknownArgument
    | some option =>
      match r.settle with
      | .error e => .error e
      | .ok r =>
        match value with
        | none => .ok { r with pending := .value option none }
        | some word => r.setOption option word

/-- The reading after a plain word that is no value of an option. -/
def addName (r : Reading) (word : Text) : Except UsageError Reading :=
  match r.pending with
  | .names words => .ok { r with pending := .names (words ++ [word]) }
  | _ =>
    match r.settle with
    | .error e => .error e
    | .ok r => .ok { r with pending := .names [word] }

/-- The reading after a plain word: the value of an option that waits for one, or a name. -/
def addPlain (r : Reading) (word : Text) : Except UsageError Reading :=
  match r.pending with
  | .value option none => .ok { r with pending := .value option (some word) }
  | _ => r.addName word

/-- The reading after the words of a check. -/
def addAll (r : Reading) : List Text → Except UsageError Reading
  | [] => r.settle
  | word :: words =>
    match shape word with
    | .separator => (words.foldlM addName r).bind settle
    | .long name value => (r.addLong name value).bind fun r => addAll r words
    | .short letters => (r.addShort letters).bind fun r => addAll r words
    | .plain => (r.addPlain word).bind fun r => addAll r words

/-- The check that has been read. -/
def command (r : Reading) : Command :=
  .check { rules := r.rules, root := r.root.getD ".".toList, verbose := r.verbose }
    (r.format.getD .text)

end Reading

/-- The check that words describe. -/
def parseCheck (words : List Text) : Except UsageError Command :=
  (Reading.addAll {} words).map Reading.command

/-! ## Commands -/

/-- The options of one letter that every command has: help, and for the whole program its version.
-/
def parseShort (hasVersion : Bool) : Text → UsageError
  | [] => .unknownArgument
  | c :: _ =>
    if c = 'h' then .displayHelp
    else if c = 'V' && hasVersion then .displayVersion
    else .unknownArgument

/-- The options with a name that every command has. -/
def parseLong (hasVersion : Bool) (name : Text) (value : Option Text) : UsageError :=
  if name = "help".toList then if value.isSome then .tooManyValues else .displayHelp
  else if name = "version".toList && hasVersion then
    if value.isSome then .tooManyValues else .displayVersion
  else .unknownArgument

/-- Writing a configuration takes no words. -/
def parseInit : List Text → Except UsageError Command
  | [] => .ok .init
  | word :: words =>
    match shape word with
    | .separator => if words.isEmpty then .ok .init else .error .unknownArgument
    | .long name value => .error (parseLong false name value)
    | .short letters => .error (parseShort false letters)
    | .plain => .error .unknownArgument

/-- A word names a command. -/
def isCommandName (word : Text) : Bool :=
  word = "check".toList || word = "init".toList || word = "help".toList

/-- Help about a command, or about all of them. -/
def parseHelp : List Text → UsageError
  | [] => .displayHelp
  | [word] => if isCommandName word then .displayHelp else .invalidSubcommand
  | _ => .invalidSubcommand

/-- The command that the words of a command line describe. -/
def parse : List Text → Except UsageError Command
  | [] => .ok .overview
  | word :: words =>
    match shape word with
    | .separator =>
      match words with
      | [] => .ok .overview
      | word :: _ => .error (if isCommandName word then .unknownArgument else .invalidSubcommand)
    | .long name value => .error (parseLong true name value)
    | .short letters => .error (parseShort true letters)
    | .plain =>
      if word = "check".toList then parseCheck words
      else if word = "init".toList then parseInit words
      else if word = "help".toList then .error (parseHelp words)
      else .error .invalidSubcommand

end Arguments

end KeyLint
