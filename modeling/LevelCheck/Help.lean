import LevelCheck.CommandLine
set_option autoImplicit false

/-! # Help

The texts that are written when help or the version is asked for. -/

namespace LevelCheck

namespace HelpTopic

/-- The help of the program. -/
def programLines : List String :=
  ["Language-level checker for the Elementary, Intermediate and Advanced Java dialects",
    "",
    "Usage: llv <COMMAND>",
    "",
    "Commands:",
    "  check  Check syntax trees (JSON) and report language-level errors",
    "  repl   Start an interactive evaluation loop",
    "  help   Print this message or the help of the given subcommand(s)",
    "",
    "Options:",
    "  -h, --help     Print help",
    "  -V, --version  Print version"]

/-- The brief help of the command that checks. -/
def briefCheckLines : List String :=
  ["Check syntax trees (JSON) and report language-level errors",
    "",
    "Usage: llv check [OPTIONS] <INPUTS>...",
    "",
    "Arguments:",
    "  <INPUTS>...  Tree files or directories containing them (searched recursively for `*.json`)",
    "",
    "Options:",
    "      --level <LEVEL>",
    "          Check every file at this level instead of the one named by its extension " ++
      "[possible values: elementary, intermediate, advanced, full]",
    "      --format <FORMAT>",
    "          Output format for diagnostics [default: text] [possible values: text, json]",
    "      --duplicate-scope <DUPLICATE_SCOPE>",
    "          Which enclosing bodies a new local variable's name is checked against " ++
      "[default: immediate] [possible values: immediate, enclosing]",
    "      --max-depth <MAX_DEPTH>",
    "          Maximum nesting depth before a construct is rejected",
    "      --no-color",
    "          Disable colored output",
    "  -h, --help",
    "          Print help (see more with '--help')"]

/-- The blank line inside the description of an option. -/
def innerBlank : String := "          "

/-- The full help of the command that checks. -/
def fullCheckLines : List String :=
  ["Check syntax trees (JSON) and report language-level errors",
    "",
    "Usage: llv check [OPTIONS] <INPUTS>...",
    "",
    "Arguments:",
    "  <INPUTS>...",
    "          Tree files or directories containing them (searched recursively for `*.json`)",
    "",
    "Options:",
    "      --level <LEVEL>",
    "          Check every file at this level instead of the one named by its extension",
    innerBlank,
    "          [possible values: elementary, intermediate, advanced, full]",
    "",
    "      --format <FORMAT>",
    "          Output format for diagnostics",
    innerBlank,
    "          [default: text]",
    "          [possible values: text, json]",
    "",
    "      --duplicate-scope <DUPLICATE_SCOPE>",
    "          Which enclosing bodies a new local variable's name is checked against",
    "",
    "          Possible values:",
    "          - immediate: Only the innermost body",
    "          - enclosing: Every body up to the enclosing method",
    innerBlank,
    "          [default: immediate]",
    "",
    "      --max-depth <MAX_DEPTH>",
    "          Maximum nesting depth before a construct is rejected",
    "",
    "      --no-color",
    "          Disable colored output",
    "",
    "  -h, --help",
    "          Print help (see a summary with '-h')"]

/-- The help of the command that runs a session. -/
def replLines : List String :=
  ["Start an interactive evaluation loop",
    "",
    "Usage: llv repl [OPTIONS]",
    "",
    "Options:",
    "      --classpath <PATHS>  Class path entries, separated by `:` or `;` [alias: --cp]",
    "  -b, --batch              Echo each input line after the prompt (for scripted sessions)",
    "  -h, --help               Print help"]

/-- The help of the command for help. -/
def helpLines : List String :=
  ["Print this message or the help of the given subcommand(s)",
    "",
    "Usage: llv help [COMMAND]...",
    "",
    "Arguments:",
    "  [COMMAND]...  Print help for the subcommand(s)"]

/-- The help on a topic. -/
def lines : HelpTopic → List String
  | .program => programLines
  | .check true => briefCheckLines
  | .check false => fullCheckLines
  | .repl => replLines
  | .help => helpLines

/-- The help on a topic as it is written. -/
def text (topic : HelpTopic) : String := String.join (topic.lines.map (· ++ "\n"))

end HelpTopic

/-- The name and version of the program as they are written. -/
def versionText : String := "llv 0.1.0\n"

end LevelCheck
