import ExactCover.Links.Build
import ExactCover.Search.Machine
import ExactCover.Search.Recursive
/-!
The search for the first exact cover: which driver, which selector, on which links.
-/

namespace ExactCover

inductive Driver
  | recursive
  | iterative
deriving DecidableEq, Repr

namespace Driver

def all : List Driver := [recursive, iterative]

def name : Driver → String
  | recursive => "recursive"
  | iterative => "iterative"

end Driver

/-- Searches the links for the first exact cover of what is left of their matrix. -/
def Links.solve (links : Links) (driver : Driver) (selector : Selector) : Except Fault Outcome :=
  match driver with
  | .recursive => Recursive.solve selector links
  | .iterative => Machine.solve selector links

def Matrix.solve (m : Matrix) : Except Fault (Option Solution) := do
  let outcome ← (Links.ofMatrix m).solve .recursive .minimumRemaining
  return outcome.solution

end ExactCover
