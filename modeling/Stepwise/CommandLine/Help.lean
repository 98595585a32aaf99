import Stepwise.CommandLine.Arguments

/-!
# Help

The pages of help, and what is said where the words are not understood.
-/

namespace Stepwise.CommandLine

/-- The name and the version. -/
def versionLine : String := "orca 0.1.0\n"

/-- What a command does. -/
def CommandName.summary : CommandName → String
  | .run => "Run a workflow file (tasks are echoed back, no tools are called)"
  | .validate => "Validate a workflow file and list every issue"
  | .plan => "Show the execution plan without running anything"
  | .config => "Print the effective configuration"

/-- The name of a command. -/
def CommandName.text : CommandName → String
  | .run => "run"
  | .validate => "validate"
  | .plan => "plan"
  | .config => "config"

/-- The help of the whole program. -/
def programPage : String :=
"Orca - DSL workflow engine for agent task orchestration

Usage: orca [OPTIONS] <COMMAND>

Commands:
  run       Run a workflow file (tasks are echoed back, no tools are called)
  validate  Validate a workflow file and list every issue
  plan      Show the execution plan without running anything
  config    Print the effective configuration
  help      Print this message or the help of the given subcommand(s)

Options:
      --config <CONFIG>  Config file (default: ~/.config/orca/config.toml)
  -h, --help             Print help
  -V, --version          Print version
"

/-- The help of the command that prints help. -/
def helpPage : String :=
"Print this message or the help of the given subcommand(s)

Usage: orca help [COMMAND]...

Arguments:
  [COMMAND]...  Print help for the subcommand(s)
"

/-- The options of every command. -/
def commonOptions : String :=
"Options:
      --config <CONFIG>  Config file (default: ~/.config/orca/config.toml)
  -h, --help             Print help
"

/-- The options of the command that runs workflows. -/
def runOptions : String :=
"Options:
      --config <CONFIG>    Config file (default: ~/.config/orca/config.toml)
  -p, --param <KEY=VALUE>  Set a workflow parameter (value parsed as JSON, else a string)
      --json               Print the full response as JSON
  -h, --help               Print help
"

/-- The page of a command. -/
def commandPage (name : CommandName) : String :=
  name.summary ++ "\n\nUsage: orca " ++ name.text ++ " [OPTIONS]" ++
    (if name.takesFile then " <FILE>\n\nArguments:\n  <FILE>  Path to workflow YAML file\n\n" else "\n\n") ++
    (if name.takesParameters then runOptions else commonOptions)

/-- The page of a topic. -/
def Topic.page : Topic → String
  | .program => programPage
  | .command name => commandPage name
  | .help => helpPage

/-- What is said about words that are not understood. -/
def complaint (reason : String) : String :=
  "error: " ++ reason ++ "\n\nFor more information, try '--help'.\n"

end Stepwise.CommandLine
