import SqlSanity.Path.Basic

/-!
# Arguments/Basic — what a command line can ask for

A command line asks for one command, or for none, which means a scan; two global options may stand
before or after the name of the command.  It can also be a call for help or for the version, or be
wrong in one of several ways, and then nothing is run.

* `Word.ofBytes` — an argument by its form: a separator, a long option, short flags, anything else.
-/

namespace SqlSanity

/-- What is to be checked. -/
inductive Command
  | scan (directories : List String)
  | directory (path : Path)
  | file (path : Path)
  deriving DecidableEq, Repr

/-- What a command line asks for. -/
structure Invocation where
  json : Bool
  root : Option Path
  command : Option Command
  deriving DecidableEq, Repr

/-- The names of the commands. -/
inductive CommandName
  | scan
  | directory
  | file
  deriving DecidableEq, Repr

namespace CommandName

/-- The command that a word names. -/
def ofBytes? (b : Bytes) : Option CommandName :=
  if b == Utf8.encode ['s', 'c', 'a', 'n'] then some scan
  else if b == Utf8.encode ['d', 'i', 'r'] then some directory
  else if b == Utf8.encode ['f', 'i', 'l', 'e'] then some file
  else none

end CommandName

/-- What a help text is about. -/
inductive HelpTopic
  | program
  | command (name : CommandName)
  | help
  deriving DecidableEq, Repr

/-- Why a command line runs nothing: it calls for a text, or it is wrong. -/
inductive Refusal
  | help (topic : HelpTopic)
  | version
  | unknownCommand
  | unknownArgument
  | missingPath
  | invalidValue
  | repeatedOption
  | unneededValue
  | notUtf8
  deriving DecidableEq, Repr

/-- A mistake in words, none for a call for a text. -/
def Refusal.message : Refusal → Option String
  | help _ | version => none
  | unknownCommand => some "unrecognized subcommand"
  | unknownArgument => some "unexpected argument"
  | missingPath => some "the required argument <PATH> was not provided"
  | invalidValue => some "a value is required"
  | repeatedOption => some "an option cannot be used multiple times"
  | unneededValue => some "unexpected value for a flag"
  | notUtf8 => some "invalid UTF-8 was detected in an argument"

/-- An argument by its form. -/
inductive Word
  | separator
  | long (name : Bytes) (value : Option Bytes)
  | short (flags : Bytes)
  | plain
  deriving DecidableEq, Repr

namespace Word

/-- The byte that starts an option. -/
def dash : UInt8 := 0x2d

/-- The byte between an option and a value attached to it. -/
def equals : UInt8 := 0x3d

/-- A long option by its text after the two dashes: the name, and the value after the first `=`. -/
def ofLong (b : Bytes) : Word :=
  .long (b.takeWhile (· != equals))
    (match b.dropWhile (· != equals) with
      | [] => none
      | _ :: value => some value)

/-- The form of an argument.  A single dash, and anything that does not start with one, is plain. -/
def ofBytes : Bytes → Word
  | a :: b :: bs =>
    if a == dash then
      if b == dash then if bs.isEmpty then .separator else ofLong bs else .short (b :: bs)
    else .plain
  | _ => .plain

end Word

end SqlSanity
