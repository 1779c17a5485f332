import SqlSanity.Arguments.Basic

/-!
# Arguments/Help — the texts that a command line can call for

Each help text says what its command is for, how it is used, and which arguments and options it
takes; the version text is one line.
-/

namespace SqlSanity

/-- Lines of text, each with its end. -/
def unlines (lines : List String) : String := String.join (lines.map fun l => l ++ "\n")

/-- The options that every command takes. -/
def globalOptions : List String :=
  ["      --json         Output machine-readable JSON",
    "      --root <ROOT>  Repository root (default: nearest directory containing src/, "
      ++ "else the working directory)",
    "  -h, --help         Print help"]

namespace CommandName

/-- The name as it is typed. -/
def word : CommandName → String
  | scan => "scan"
  | directory => "dir"
  | file => "file"

/-- What a command is for. -/
def purpose : CommandName → String
  | scan => "Scan the candidate directories under the root (default command)"
  | directory => "Scan a single directory tree"
  | file => "Validate a single file"

/-- How a command is used. -/
def usage : CommandName → List String
  | scan =>
    ["Usage: plsql-check scan [OPTIONS]", "", "Options:",
      "      --dir <NAME>   Directory to check relative to the root "
        ++ "(repeatable, default: src data tests)"]
  | name =>
    ["Usage: plsql-check " ++ name.word ++ " [OPTIONS] <PATH>", "", "Arguments:", "  <PATH>  ", "",
      "Options:"]

end CommandName

/-- The help text about a topic. -/
def HelpTopic.text : HelpTopic → String
  | .program =>
    unlines (["Heuristic sanity checks for SQL and PL/SQL files", "",
      "Usage: plsql-check [OPTIONS] [COMMAND]", "", "Commands:",
      "  scan  " ++ CommandName.scan.purpose, "  dir   " ++ CommandName.directory.purpose,
      "  file  " ++ CommandName.file.purpose,
      "  help  Print this message or the help of the given subcommand(s)", "", "Options:"]
      ++ globalOptions ++ ["  -V, --version      Print version"])
  | .command name => unlines ([name.purpose, ""] ++ name.usage ++ globalOptions)
  | .help =>
    unlines ["Print this message or the help of the given subcommand(s)", "",
      "Usage: plsql-check help [COMMAND]...", "", "Arguments:",
      "  [COMMAND]...  Print help for the subcommand(s)"]

/-- The version text. -/
def versionText : String := unlines ["plsql-check 0.1.0"]

end SqlSanity
