import ExactCover.Planted
import ExactCover.Search.Names
/-!
What can be asked for on the command line.
-/

namespace ExactCover

structure Options where
  debug : Bool := false
  verify : Bool := true
  stats : Bool := true
  printSolution : Bool := false
  sorted : Bool := false
  driver : Driver := .recursive
  selector : Selector := .minimumRemaining
deriving DecidableEq, Repr

inductive Job
  | path (path : String)
  | file (path : String)
  | text (input : String)
  | sudoku (path : String)
  | random (params : Planted)

def Job.path? : Job → Option String
  | path place | file place | sudoku place => some place
  | text _ | random _ => none

inductive Shell
  | bash
  | elvish
  | fish
  | powershell
  | zsh
deriving DecidableEq, Repr

namespace Shell

def all : List Shell := [bash, elvish, fish, powershell, zsh]

def name : Shell → String
  | bash => "bash"
  | elvish => "elvish"
  | fish => "fish"
  | powershell => "powershell"
  | zsh => "zsh"

def ofName? (text : String) : Option Shell := all.find? fun shell => shell.name == text

end Shell

inductive Command
  | solve (job : Job) (options : Options)
  | help
  | version
  | completions (shell : Shell)

end ExactCover
