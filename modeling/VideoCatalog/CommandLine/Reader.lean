import VideoCatalog.CommandLine
import VideoCatalog.Text.Integer

/-!
Reading the arguments of a command line. Options may stand in front of the command word and behind
it; of the values given at the two places the ones behind it count. At one place an option can be
given once, unless it collects a list.

An option that takes a value has it attached (`--name=value`, `-nvalue`, `-n=value`) or in the next
argument, which then must not look like an option. A value in an argument of its own is looked at
only when the next argument shows what comes after it, so a fault in that argument can come first.
-/

namespace VideoCatalog

/-- Why arguments are no command line, or what they ask for instead of a command. -/
inductive ArgumentFault where
  /-- Help is asked for. -/
  | help
  /-- The version is asked for. -/
  | version
  /-- There are no arguments. -/
  | noArguments
  /-- There are options and no command. -/
  | noCommand
  /-- An argument of the command is missing. -/
  | missingArgument
  /-- There is no such option, or an argument too many. -/
  | unknownArgument
  /-- There is no such command. -/
  | unknownCommand
  /-- A value is missing, empty or none of those possible. -/
  | invalidValue
  /-- A value cannot be read. -/
  | unreadableValue
  /-- Options exclude each other, or one is repeated. -/
  | conflict
  /-- An option that takes no value is given one. -/
  | tooManyValues
  deriving DecidableEq

/-- The commands. -/
inductive CommandWord where
  | validate
  | importFrom
  | search
  | convert
  deriving DecidableEq

namespace CommandWord

/-- The command that a word stands for. -/
def ofText? (s : String) : Option CommandWord :=
  if s = "validate" then some .validate
  else if s = "import" then some .importFrom
  else if s = "search" then some .search
  else if s = "convert" then some .convert
  else none

/-- How many arguments the command takes. -/
def arity : CommandWord → Nat
  | .search => 2
  | _ => 1

/-- The command with its arguments. -/
def command? : CommandWord → List String → Option Command
  | .validate, [path] => some (.validate path)
  | .importFrom, [path] => some (.importFrom path)
  | .search, [path, term] => some (.search path term)
  | .convert, [path] => some (.convert path)
  | _, _ => none

end CommandWord

/-- Options that take a value. -/
inductive Setting where
  | config
  | schema
  | pattern
  | grammar
  | extensions
  | includePattern
  | excludePattern
  | threads
  | format
  | snapshot
  deriving DecidableEq

/-- Options that take no value. -/
inductive Switch where
  | verbose
  | quiet
  | failFast
  deriving DecidableEq

/-- What can be given with dashes in front. -/
inductive Flag where
  | setting (s : Setting)
  | switch (s : Switch)
  | help
  | version
  deriving DecidableEq

namespace Flag

/-- The flag with a long name. The version is only known in front of a command. -/
def ofName? (inFront : Bool) (name : String) : Option Flag :=
  if name = "config" then some (.setting .config)
  else if name = "xsd" then some (.setting .schema)
  else if name = "rng" then some (.setting .pattern)
  else if name = "grammar" then some (.setting .grammar)
  else if name = "extensions" then some (.setting .extensions)
  else if name = "include" then some (.setting .includePattern)
  else if name = "exclude" then some (.setting .excludePattern)
  else if name = "threads" then some (.setting .threads)
  else if name = "format" then some (.setting .format)
  else if name = "snapshot" then some (.setting .snapshot)
  else if name = "verbose" then some (.switch .verbose)
  else if name = "quiet" then some (.switch .quiet)
  else if name = "fail-fast" then some (.switch .failFast)
  else if name = "help" then some .help
  else if name = "version" && inFront then some .version
  else none

/-- The flag with a short name. -/
def ofLetter? (inFront : Bool) (letter : Char) : Option Flag :=
  if letter = 'e' then some (.setting .extensions)
  else if letter = 't' then some (.setting .threads)
  else if letter = 'v' then some (.switch .verbose)
  else if letter = 'q' then some (.switch .quiet)
  else if letter = 'h' then some .help
  else if letter = 'V' && inFront then some .version
  else none

end Flag

/-! ## Values -/

/-- A path; it is not empty. -/
def pathValue (s : String) : Except ArgumentFault String :=
  if s = "" then .error .invalidValue else .ok s

/-- One of some words. -/
def wordValue {α : Type} (ofLabel? : String → Option α) (s : String) : Except ArgumentFault α :=
  match ofLabel? s with
  | some a => .ok a
  | none => .error .invalidValue

/-- A count. -/
def countValue (s : String) : Except ArgumentFault Nat :=
  match Text.count? s with
  | some n => .ok n
  | none => .error .unreadableValue

namespace Setting

/-- Whether the option collects a list. -/
def collects : Setting → Bool
  | .includePattern => true
  | .excludePattern => true
  | _ => false

/-- Whether the option has been given. -/
def isGiven (o : Options) : Setting → Bool
  | .config => o.config.isSome
  | .schema => o.schema.isSome
  | .pattern => o.pattern.isSome
  | .grammar => o.grammar.isSome
  | .extensions => o.extensions.isSome
  | .includePattern => !o.includePatterns.isEmpty
  | .excludePattern => !o.excludePatterns.isEmpty
  | .threads => o.threads.isSome
  | .format => o.format.isSome
  | .snapshot => o.snapshot.isSome

/-- The options with a value stored. -/
def store (o : Options) (value : String) : Setting → Except ArgumentFault Options
  | .config => (pathValue value).map (fun v => { o with config := some v })
  | .schema => (pathValue value).map (fun v => { o with schema := some v })
  | .pattern => (pathValue value).map (fun v => { o with pattern := some v })
  | .grammar =>
    (wordValue GrammarChoice.ofLabel? value).map (fun v => { o with grammar := some v })
  | .extensions => .ok { o with extensions := some value }
  | .includePattern => .ok { o with includePatterns := o.includePatterns ++ [value] }
  | .excludePattern => .ok { o with excludePatterns := o.excludePatterns ++ [value] }
  | .threads => (countValue value).map (fun v => { o with threads := some v })
  | .format => (wordValue OutputFormat.ofLabel? value).map (fun v => { o with format := some v })
  | .snapshot => (pathValue value).map (fun v => { o with snapshot := some v })

/-- The options with a value stored, unless there is one already. -/
def give (o : Options) (value : String) (s : Setting) : Except ArgumentFault Options :=
  if s.isGiven o && !s.collects then .error .conflict else s.store o value

end Setting

namespace Switch

/-- Whether the switch has been given. -/
def isGiven (o : Options) : Switch → Bool
  | .verbose => o.verbose
  | .quiet => o.quiet
  | .failFast => o.failFast

/-- The options with the switch set, unless it is set already. -/
def give (o : Options) (s : Switch) : Except ArgumentFault Options :=
  if s.isGiven o then .error .conflict
  else
    match s with
    | .verbose => .ok { o with verbose := true }
    | .quiet => .ok { o with quiet := true }
    | .failFast => .ok { o with failFast := true }

end Switch

namespace Options

/-- Whether no option is given. -/
def isEmpty (o : Options) : Bool :=
  decide (o = {})

/-- The options given behind the command above those in front of it. -/
def above (upper lower : Options) : Options where
  config := upper.config.or lower.config
  schema := upper.schema.or lower.schema
  pattern := upper.pattern.or lower.pattern
  grammar := upper.grammar.or lower.grammar
  extensions := upper.extensions.or lower.extensions
  includePatterns :=
    if upper.includePatterns.isEmpty then lower.includePatterns else upper.includePatterns
  excludePatterns :=
    if upper.excludePatterns.isEmpty then lower.excludePatterns else upper.excludePatterns
  threads := upper.threads.or lower.threads
  verbose := upper.verbose || lower.verbose
  quiet := upper.quiet || lower.quiet
  format := upper.format.or lower.format
  failFast := upper.failFast || lower.failFast
  snapshot := upper.snapshot.or lower.snapshot

end Options

/-! ## Arguments -/

/-- What the last argument has left open. -/
inductive Pending where
  | nothing
  /-- An option waits for its value. -/
  | awaiting (s : Setting)
  /-- The value of an option is still to be looked at. -/
  | value (s : Setting) (text : String)
  /-- An argument of the command is still to be looked at. -/
  | argument (text : String)
  deriving DecidableEq

/-- What has been read at one of the two places: in front of the command word (no `word`) or behind
it. -/
structure Arguments where
  word : Option CommandWord
  options : Options := {}
  arguments : List String := []
  pending : Pending := .nothing
  /-- After `--` nothing is an option any more. -/
  onlyArguments : Bool := false

namespace Arguments

/-- Whether an argument is the path of the command. -/
def isPath (a : Arguments) : Bool :=
  a.arguments.isEmpty

/-- Looks at what the last argument has left open. -/
def settle (a : Arguments) : Except ArgumentFault Arguments :=
  match a.pending with
  | .nothing => .ok a
  | .awaiting _ => .error .invalidValue
  | .value s text => do
    let options ← s.give a.options text
    .ok { a with options := options, pending := .nothing }
  | .argument text => do
    let text ← if a.isPath then pathValue text else .ok text
    .ok { a with arguments := a.arguments ++ [text], pending := .nothing }

/-- The number of arguments of the command read so far. -/
def count (a : Arguments) : Nat :=
  match a.pending with
  | .argument _ => a.arguments.length + 1
  | _ => a.arguments.length

/-- Whether a word is a command or asks for help about one. -/
def isCommandText (s : String) : Bool :=
  (CommandWord.ofText? s).isSome || s = "help"

/-- Takes an argument that is no option. -/
def takeArgument (a : Arguments) (text : String) : Except ArgumentFault Arguments :=
  match a.word with
  | none =>
    if a.onlyArguments && isCommandText text then .error .unknownArgument
    else .error .unknownCommand
  | some word =>
    if a.count < word.arity then do
      let a ← a.settle
      .ok { a with pending := .argument text }
    else .error .unknownArgument

/-- Takes an option, with the value attached to it if there is one. -/
def takeFlag (a : Arguments) (attached : Option String) : Flag → Except ArgumentFault Arguments
  | .setting s => do
    let a ← a.settle
    match attached with
    | some value => do
      let options ← s.give a.options value
      .ok { a with options := options }
    | none => .ok { a with pending := .awaiting s }
  | .switch s => do
    if attached.isSome then .error .tooManyValues
    else
      let a ← a.settle
      let options ← s.give a.options
      .ok { a with options := options }
  | .help => do
    if attached.isSome then .error .tooManyValues
    else
      let _ ← a.settle
      .error .help
  | .version => do
    if attached.isSome then .error .tooManyValues
    else
      let _ ← a.settle
      .error .version

/-- Takes an argument that begins with two dashes, given what follows them. -/
def takeLong (a : Arguments) (cs : List Char) : Except ArgumentFault Arguments :=
  let name := cs.takeWhile (fun c => c ≠ '=')
  let attached :=
    match cs.drop name.length with
    | [] => none
    | _ :: value => some (String.ofList value)
  match Flag.ofName? a.word.isNone (String.ofList name) with
  | some flag => a.takeFlag attached flag
  | none => .error .unknownArgument

/-- Takes the letters behind one dash. What follows the letter of an option with a value is its
value. -/
def takeLetters (a : Arguments) : List Char → Except ArgumentFault Arguments
  | [] => .ok a
  | letter :: rest =>
    match Flag.ofLetter? a.word.isNone letter with
    | some (.setting s) =>
      let attached :=
        match rest with
        | [] => none
        | '=' :: value => some (String.ofList value)
        | value => some (String.ofList value)
      a.takeFlag attached (.setting s)
    | some flag => do
      let a ← a.takeFlag none flag
      a.takeLetters rest
    | none => .error .unknownArgument

/-- Takes one argument. -/
def take (a : Arguments) (text : String) : Except ArgumentFault Arguments :=
  if a.onlyArguments then a.takeArgument text
  else
    match text.toList with
    | ['-', '-'] => .ok { a with onlyArguments := true }
    | '-' :: '-' :: cs => a.takeLong cs
    | '-' :: c :: cs => a.takeLetters (c :: cs)
    | _ =>
      match a.pending with
      | .awaiting s => .ok { a with pending := .value s text }
      | _ => a.takeArgument text

/-- Whether the next argument can be a command word. -/
def expectsCommand (a : Arguments) : Bool :=
  a.word.isNone && !a.onlyArguments &&
    match a.pending with
    | .awaiting _ => false
    | _ => true

/-- Takes arguments up to a command word, which is returned with those behind it. -/
def takeAll : Arguments → List String →
    Except ArgumentFault (Arguments × Option (String × List String))
  | a, [] => .ok (a, none)
  | a, text :: texts =>
    if a.expectsCommand && isCommandText text then .ok (a, some (text, texts))
    else do
      let a ← a.take text
      takeAll a texts

/-- Refuses options that exclude each other. -/
def checkConflicts (a : Arguments) : Except ArgumentFault Unit :=
  if a.options.verbose && a.options.quiet then .error .conflict else .ok ()

/-- What the word `help` and the words behind it ask for. -/
def help : List String → ArgumentFault
  | [] => .help
  | [word] => if isCommandText word then .help else .unknownCommand
  | _ => .unknownCommand

end Arguments

namespace CommandLine

/-- What stands behind a command word. -/
def behind (word : CommandWord) (texts : List String) :
    Except ArgumentFault (Command × Options) := do
  let (a, _) ← Arguments.takeAll { word := some word } texts
  let a ← a.settle
  a.checkConflicts
  match word.command? a.arguments with
  | some command => .ok (command, a.options)
  | none => .error .missingArgument

/-- The command line that arguments make up. What is wrong behind the command word comes before what
is only noticed in front of it at the end. -/
def ofArguments (texts : List String) : Except ArgumentFault CommandLine := do
  let (a, command) ← Arguments.takeAll { word := none } texts
  match command with
  | none =>
    let a ← a.settle
    if a.options.isEmpty then .error .noArguments else .error .noCommand
  | some (text, texts) =>
    match CommandWord.ofText? text with
    | none => .error (Arguments.help texts)
    | some word => do
      let (command, options) ← behind word texts
      let a ← a.settle
      a.checkConflicts
      .ok { command := command, options := options.above a.options }

end CommandLine

end VideoCatalog
