import ExactCover.Search.Outcome
import ExactCover.Search.Selector
/-!
Algorithm X as a recursion over partial solutions. Each level picks a column, covers it and tries
its rows from top to bottom: a row's other columns are covered, the next level searched, and on
failure the row's covers taken back. Nothing is taken back on the way up from a success.
-/

namespace ExactCover

namespace Recursive

/-- How a part of the search ended: the cells that complete the partial solution, if there are any,
with the links and the counts at that point. -/
structure Visit where
  links : Links
  stats : Stats
  found : Option (List Nat)
deriving DecidableEq

/-- Tries the rows of a covered column from `cell` down; `descend` searches the next level. -/
def tryRows (descend : Links → Stats → Except Fault Visit) (column : Nat) :
    (steps : Nat) → (cell : Nat) → Links → Stats → Except Fault Visit
  | steps, cell, links, stats =>
    if cell = column then do
      let links ← links.uncover column
      return { links, stats, found := none }
    else match steps with
      | 0 => .error .endless
      | steps + 1 => do
        let (links, updates) ← links.coverRow cell
        let visit ← descend links (stats.tryRow updates)
        match visit.found with
        | some cells => return { visit with found := some (cell :: cells) }
        | none =>
          let links ← visit.links.uncoverRow cell
          let node ← links.node cell
          tryRows descend column steps node.down links visit.stats.backtrack

/-- Searches below a partial solution of `depth` rows. -/
def search (selector : Selector) :
    (levels : Nat) → (depth : Nat) → Links → Stats → Except Fault Visit
  | 0, _, _, _ => .error .endless
  | levels + 1, depth, links, stats => do
    let stats := stats.enter depth
    match ← selector.pick links with
    | none => return { links, stats, found := some [] }
    | some column =>
      let count ← links.count column
      if count = 0 then return { links, stats := stats.deadEnd, found := none }
      let (links, updates) ← links.cover column
      let node ← links.node column
      tryRows (search selector levels (depth + 1)) column links.size node.down links
        (stats.update updates)

def solve (selector : Selector) (links : Links) : Except Fault Outcome := do
  let visit ← search selector links.searchLimit 0 links {}
  match visit.found with
  | none => return { solution := none, stats := visit.stats, links := visit.links }
  | some cells => visit.links.conclude visit.stats cells

end Recursive

end ExactCover
