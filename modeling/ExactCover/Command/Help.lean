import ExactCover.Command.Arguments
/-!
The texts that are printed on request: version, usage and shell completions.
-/

namespace ExactCover

def versionText : String := "dlx 0.1.0\n"

def helpText : String :=
  "An exact cover solver using Dancing Links\n\n" ++
  "Usage: dlx [OPTIONS] [PATH]\n" ++
  "       dlx <COMMAND>\n\n" ++
  "Commands:\n" ++
  "  file         Solve a matrix file (--path <PATH>)\n" ++
  "  text         Solve a matrix given as text (-i, --input <TEXT>)\n" ++
  "  sudoku       Solve a sudoku file (--path <PATH>)\n" ++
  "  random       Solve a random matrix with a planted exact cover\n" ++
  "               (--columns, --rows, --density, --max-group, --seed)\n" ++
  "  completions  Print completions for bash, elvish, fish, powershell or zsh\n" ++
  "  help         Print this text\n\n" ++
  "Arguments:\n" ++
  "  [PATH]  A matrix file, a sudoku file, or a directory of such files\n\n" ++
  "Options:\n" ++
  "  -d, --debug                      Print more about the run\n" ++
  "  -v, --verify <true|false>        Check a solution against the matrix\n" ++
  "  -s, --stats <true|false>         Print statistics\n" ++
  "  -p, --print-solution             Print the selected rows\n" ++
  "      --sorted                     Print the selected rows in ascending order\n" ++
  "      --solver <NAME>              recursive or iterative\n" ++
  "      --column-selection <NAME>    minimum-remaining or leftmost\n" ++
  "  -h, --help                       Print this text\n" ++
  "  -V, --version                    Print the version\n"

def completionWords : List String :=
  Arguments.Subcommand.all.map Arguments.Subcommand.name ++
    Arguments.topGrammar.options.map fun option => "--" ++ option.name

def completionText (shell : Shell) : String :=
  let words := " ".intercalate completionWords
  match shell with
  | .bash => s!"complete -W '{words}' -f dlx\n"
  | .elvish => "set edit:completion:arg-completer[dlx] = \x7b|@_| put " ++ words ++ " \x7d\n"
  | .fish => s!"complete -c dlx -a '{words}'\n"
  | .powershell =>
    "Register-ArgumentCompleter -Native -CommandName dlx -ScriptBlock \x7b '" ++ words ++
      "' -split ' ' \x7d\n"
  | .zsh => s!"compctl -k '({words})' -f dlx\n"

end ExactCover
