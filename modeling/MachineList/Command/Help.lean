/-
  MachineList.Command.Help — what the program says about itself.
-/
import MachineList.Command.Arguments

namespace MachineList.Command

def versionLine : String :=
  "vmlist 0.1.0"

def Topic.lines : Topic → List String
  | .program =>
    ["Usage: vmlist <COMMAND>",
     "",
     "Commands:",
     "  init    Write a default vmlist.toml",
     "  replay  Replay a fixture scenario through the list engine and check its expectations",
     "  help    Print this message or the help of the given subcommand(s)",
     "",
     "Options:",
     "  -h, --help     Print help",
     "  -V, --version  Print version"]
  | .init =>
    ["Write a default vmlist.toml",
     "",
     "Usage: vmlist init [OPTIONS]",
     "",
     "Options:",
     "      --path <PATH>  ",
     "  -h, --help         Print help"]
  | .replay =>
    ["Replay a fixture scenario through the list engine and check its expectations",
     "",
     "Usage: vmlist replay [OPTIONS] <DIR>",
     "",
     "Arguments:",
     "  <DIR>  Directory holding scenario.yaml",
     "",
     "Options:",
     "      --config <CONFIG>  ",
     "  -h, --help             Print help"]
  | .help =>
    ["Print this message or the help of the given subcommand(s)",
     "",
     "Usage: vmlist help [COMMAND]...",
     "",
     "Arguments:",
     "  [COMMAND]...  Print help for the subcommand(s)"]

end MachineList.Command
