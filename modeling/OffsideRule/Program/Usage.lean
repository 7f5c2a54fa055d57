import OffsideRule.Program.Arguments

/-! What the program says about its use. -/

namespace OffsideRule.Program

def usage : String :=
  "usage: offside [-h] [-o OUTPUT] [-f \x7btokens,braces,json\x7d] [-k KEYWORD]\n" ++
  "               [--no-close-top-level] [--config FILE] [--watch] [--debug] [-v]\n" ++
  "               input\n"

def helpText : String :=
  usage ++ "\n" ++
  "Insert virtual layout delimiters into an indentation-sensitive source file\n" ++
  "\n" ++
  "positional arguments:\n" ++
  "  input                 Input source file\n" ++
  "\n" ++
  "options:\n" ++
  "  -h, --help            show this help message and exit\n" ++
  "  -o OUTPUT, --output OUTPUT\n" ++
  "                        Output file (default: stdout)\n" ++
  "  -f \x7btokens,braces,json\x7d, --format \x7btokens,braces,json\x7d\n" ++
  "                        Output format (default: tokens)\n" ++
  "  -k KEYWORD, --keyword KEYWORD\n" ++
  "                        Layout-creating keyword (repeatable, replaces the\n" ++
  "                        default set)\n" ++
  "  --no-close-top-level  Do not emit a closing token for the implicit top-level\n" ++
  "                        block\n" ++
  "  --config FILE         Config file (default: auto-discover offside.toml)\n" ++
  "  --watch               Watch for changes and re-run\n" ++
  "  --debug               Dump raw tokens to stderr\n" ++
  "  -v, --verbose         Log layout decisions to stderr\n"

/-- The complaint about a command line. -/
def Misuse.report (m : Misuse) : String :=
  usage ++ "offside: error: " ++ m.message ++ "\n"

end OffsideRule.Program
