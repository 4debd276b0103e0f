import ExactCover.Links.Basic
/-!
How the search picks the column to branch on. Every column has to be covered in the end, so any
choice keeps the search complete; a choice only changes how much of it is visited.
-/

namespace ExactCover

inductive Selector
  /-- The column with the fewest live cells, the first of several. -/
  | minimumRemaining
  /-- The first active column. -/
  | leftmost
deriving DecidableEq, Repr

namespace Selector

def all : List Selector := [minimumRemaining, leftmost]

def name : Selector → String
  | minimumRemaining => "minimum-remaining"
  | leftmost => "leftmost"

/-- The best of `best` (with `least` live cells) and the headers after it. A header has to be
strictly better to take over, and no header is better than one without cells. -/
def fewest (links : Links) (best least : Nat) : List Nat → Except Fault Nat
  | [] => .ok best
  | header :: headers =>
    if least = 0 then .ok best
    else do
      let count ← links.count header
      if count < least then fewest links header count headers
      else fewest links best least headers

/-- The header to branch on; `none` once every column is covered. -/
def pick (links : Links) : Selector → Except Fault (Option Nat)
  | minimumRemaining => do
    match ← links.columns with
    | [] => return none
    | header :: headers =>
      let count ← links.count header
      let best ← fewest links header count headers
      return some best
  | leftmost => do
    let node ← links.node root
    return if node.right = root then none else some node.right

end Selector

end ExactCover
