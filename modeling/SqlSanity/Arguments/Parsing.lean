import SqlSanity.Arguments.Basic

/-!
# Arguments/Parsing — reading a command line

Arguments are read from left to right on two levels: before the name of a command, and after it.  On
either level `--json` and `--root` are given once at most, and a value after the command wins over
one before it.  A value that is an argument of its own is *pending* until the next known option, the
path or the end of its level, and only then looked at; a value attached with `=` is looked at once.
After the separator `--` every argument is a path, if one is still missing.

* `Level.read_nil` — at the end of a level its pending value is looked at;
* `Level.read` — the arguments of a command;
* `Invocation.ofArguments` — a whole command line.
-/

namespace SqlSanity

/-- The options that some level knows. -/
inductive OptionName
  | json
  | root
  | directory
  | help
  | version
  deriving DecidableEq, Repr

/-- Where an argument stands: before any command, or after one. -/
inductive Level
  | program
  | command (name : CommandName)
  deriving DecidableEq, Repr

namespace Level

/-- The long option of a name. -/
def long? (l : Level) (name : Bytes) : Option OptionName :=
  if name == Utf8.encode ['j', 's', 'o', 'n'] then some .json
  else if name == Utf8.encode ['r', 'o', 'o', 't'] then some .root
  else if name == Utf8.encode ['h', 'e', 'l', 'p'] then some .help
  else if name == Utf8.encode ['v', 'e', 'r', 's', 'i', 'o', 'n'] && l == .program then
    some .version
  else if name == Utf8.encode ['d', 'i', 'r'] && l == .command .scan then some .directory
  else none

/-- The option of a short flag. -/
def short? (l : Level) (flag : UInt8) : Option OptionName :=
  if flag == 0x68 then some .help
  else if flag == 0x56 && l == .program then some .version
  else none

/-- What the help of a level is about. -/
def topic : Level → HelpTopic
  | program => .program
  | command name => .command name

/-- A command that checks one path takes it as an argument. -/
def takesPath : Level → Bool
  | command .directory | command .file => true
  | _ => false

/-- The refusal of a plain word that has no place on a level. -/
def surplus : Level → Refusal
  | program => .unknownCommand
  | command _ => .unknownArgument

end Level

/-- What the arguments of one level have given so far. -/
structure Given where
  json : Bool := false
  root : Option Path := none
  directories : List String := []
  path : Option Path := none
  deriving DecidableEq, Repr

namespace Given

/-- Takes the flag `--json`. -/
def withJson (g : Given) : Except Refusal Given :=
  if g.json then .error .repeatedOption else .ok { g with json := true }

/-- Takes the value of `--root`. -/
def withRoot (g : Given) (value : Bytes) : Except Refusal Given :=
  if g.root.isSome then .error .repeatedOption
  else if value.isEmpty then .error .invalidValue
  else .ok { g with root := some ⟨value⟩ }

/-- Takes the value of a `--dir`. -/
def withDirectory (g : Given) (value : Bytes) : Except Refusal Given :=
  match Utf8.decode? value with
  | none => .error .notUtf8
  | some name => .ok { g with directories := g.directories ++ [String.ofList name] }

/-- Takes the path of a command. -/
def withPath (g : Given) (value : Bytes) : Except Refusal Given :=
  if value.isEmpty then .error .invalidValue else .ok { g with path := some ⟨value⟩ }

end Given

/-- A value that has not been looked at, or an option that still waits for one. -/
inductive Pending
  | root (value : Option Bytes)
  | directory (value : Option Bytes)
  | path (value : Bytes)
  deriving DecidableEq, Repr

/-- How far the arguments of a level have been read. -/
structure Progress where
  given : Given := {}
  pending : Option Pending := none
  deriving DecidableEq, Repr

namespace Progress

/-- Looks at the pending value. -/
def settle (p : Progress) : Except Refusal Given :=
  match p.pending with
  | none => .ok p.given
  | some (.root none) | some (.directory none) => .error .invalidValue
  | some (.root (some value)) => p.given.withRoot value
  | some (.directory (some value)) => p.given.withDirectory value
  | some (.path value) => p.given.withPath value

/-- The option that still waits for a value, given this one. -/
def supplied? (p : Progress) (value : Bytes) : Option Pending :=
  match p.pending with
  | some (.root none) => some (.root (some value))
  | some (.directory none) => some (.directory (some value))
  | _ => none

/-- An option still waits for a value. -/
def isWaiting (p : Progress) : Bool := (p.supplied? []).isSome

/-- A path has been given. -/
def hasPath (p : Progress) : Bool :=
  match p.pending with
  | some (.path _) => true
  | _ => p.given.path.isSome

end Progress

namespace Level

/-- Reads an option with the value attached to it, if there is one. -/
def readOption (l : Level) (p : Progress) : OptionName → Option Bytes → Except Refusal Progress
  | .json, none => (p.settle.bind Given.withJson).map fun g => { given := g }
  | .help, none => p.settle.bind fun _ => .error (.help l.topic)
  | .version, none => p.settle.bind fun _ => .error .version
  | .json, some _ | .help, some _ | .version, some _ => .error .unneededValue
  | .root, none => p.settle.map fun g => ⟨g, some (.root none)⟩
  | .root, some value => (p.settle.bind fun g => g.withRoot value).map fun g => { given := g }
  | .directory, none => p.settle.map fun g => ⟨g, some (.directory none)⟩
  | .directory, some value =>
    (p.settle.bind fun g => g.withDirectory value).map fun g => { given := g }

/-- Reads a word that is no option and no value of one: the path, where one is still missing. -/
def readPath (l : Level) (p : Progress) (word : Bytes) : Except Refusal Progress :=
  if l.takesPath && !p.hasPath then p.settle.map fun g => ⟨g, some (.path word)⟩
  else .error l.surplus

/-- Reads an argument before the separator. -/
def readWord (l : Level) (p : Progress) (word : Bytes) : Except Refusal Progress :=
  match Word.ofBytes word with
  | .long name value =>
    match l.long? name with
    | none => .error .unknownArgument
    | some o => l.readOption p o value
  | .short flags =>
    match flags.head?.bind l.short? with
    | none => .error .unknownArgument
    | some o => l.readOption p o none
  | .separator | .plain =>
    match p.supplied? word with
    | some pending => .ok { p with pending := some pending }
    | none => l.readPath p word

/-- Reads the arguments of a level to their end. -/
def read (l : Level) : (separated : Bool) → Progress → List Bytes → Except Refusal Given
  | _, p, [] => p.settle
  | true, p, word :: words => (l.readPath p word).bind fun p => read l true p words
  | false, p, word :: words =>
    if Word.ofBytes word == .separator then read l true p words
    else (l.readWord p word).bind fun p => read l false p words

/-- At the end of a level its pending value is looked at. -/
theorem read_nil (l : Level) (b : Bool) (p : Progress) : l.read b p [] = p.settle := by
  cases b <;> rfl

end Level

namespace CommandName

/-- The command that its arguments describe. -/
def command? (name : CommandName) (g : Given) : Except Refusal Command :=
  match name, g.path with
  | scan, _ => .ok (.scan g.directories)
  | directory, some path => .ok (.directory path)
  | file, some path => .ok (.file path)
  | directory, none | file, none => .error .missingPath

/-- Reads the arguments of a command. -/
def read (name : CommandName) (words : List Bytes) : Except Refusal (Command × Given) :=
  ((Level.command name).read false {} words).bind fun g =>
    (name.command? g).map fun c => (c, g)

end CommandName

/-- The word that calls for help in the place of a command. -/
def helpWord : Bytes := Utf8.encode ['h', 'e', 'l', 'p']

/-- What the words after `help` call for. -/
def Refusal.ofHelp : List Bytes → Refusal
  | [] => .help .program
  | [word] =>
    match CommandName.ofBytes? word with
    | some name => .help (.command name)
    | none => if word == helpWord then .help .help else .unknownCommand
  | _ => .unknownCommand

namespace Invocation

/-- What the options before a command ask for, with the command and the options after it, which
win. -/
def merge (outer : Given) (c : Command) (inner : Given) : Invocation where
  json := outer.json || inner.json
  root := inner.root.or outer.root
  command := some c

/-- The refusal of a word after the separator and before any command. -/
def refuseSeparated (word : Bytes) : Refusal :=
  if (CommandName.ofBytes? word).isSome || word == helpWord then .unknownArgument
  else .unknownCommand

/-- Reads a command line on from some progress before any command.  The value that is pending there
is looked at only after the arguments of the command. -/
def read : (separated : Bool) → Progress → List Bytes → Except Refusal Invocation
  | _, p, [] => p.settle.map fun g => ⟨g.json, g.root, none⟩
  | true, _, word :: _ => .error (refuseSeparated word)
  | false, p, word :: words =>
    if !p.isWaiting && word == helpWord then .error (.ofHelp words)
    else match if p.isWaiting then none else CommandName.ofBytes? word with
      | some name =>
        (name.read words).bind fun (c, inner) => p.settle.map fun outer => merge outer c inner
      | none =>
        if Word.ofBytes word == .separator then read true p words
        else (Level.program.readWord p word).bind fun p => read false p words

/-- What a command line asks for. -/
def ofArguments (words : List Bytes) : Except Refusal Invocation := read false {} words

end Invocation

end SqlSanity
