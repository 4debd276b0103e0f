import ExactCover.Search.Plain
import ExactCover.Search.Solve
/-!
The searches once more, now also writing down each partial solution that they enter. A driver is at
work on its links while it goes along, so the partial solutions are kept by their cells, and the rows
are read off afterwards.
-/

namespace ExactCover

structure Selection where
  column : Nat
  live : LiveRow
deriving DecidableEq, Repr

namespace Remainder

/-- What a part of the plain search finds, and the partial solutions that it enters on the way, each
from where this part began. -/
structure Tour where
  result : Stats × Option (List Nat)
  entered : List (List Selection)

def tourRows (descend : LiveRow → Stats → Tour) (column : Nat) : List LiveRow → Stats → Tour
  | [], stats => { result := (stats, none), entered := [] }
  | live :: rest, stats =>
    let below := descend live stats
    let entered := below.entered.map ({ column, live } :: ·)
    match below.result with
    | (stats, some rows) => { result := (stats, some (live.row :: rows)), entered }
    | (stats, none) =>
      let further := tourRows descend column rest stats.backtrack
      { result := further.result, entered := entered ++ further.entered }

def tour (selector : Selector) : (levels : Nat) → (depth : Nat) → Remainder → Stats → Tour
  | 0, _, _, stats => { result := (stats, none), entered := [] }
  | levels + 1, depth, p, stats =>
    let stats := stats.enter depth
    match p.pick selector with
    | none => { result := (stats, some []), entered := [[]] }
    | some column =>
      let candidates := p.candidates column
      if candidates.isEmpty then { result := (stats.deadEnd, none), entered := [[]] }
      else
        let below := tourRows (fun live stats =>
          tour selector levels (depth + 1) (p.select live)
            (stats.tryRow ((p.strike column).costAll (others live column))))
          column candidates (stats.update (p.cost column))
        { result := below.result, entered := [] :: below.entered }

end Remainder

namespace Recursive

/-- How a part of the search ended, and the cells of the partial solutions that it entered on the
way, first selected first. -/
structure Tour where
  visit : Visit
  entered : List (List Nat)

def tourRows (descend : Nat → Links → Stats → Except Fault Tour) (column : Nat) :
    (steps : Nat) → (cell : Nat) → Links → Stats → Except Fault Tour
  | steps, cell, links, stats =>
    if cell = column then do
      let links ← links.uncover column
      return { visit := { links, stats, found := none }, entered := [] }
    else match steps with
      | 0 => .error .endless
      | steps + 1 => do
        let (links, updates) ← links.coverRow cell
        let below ← descend cell links (stats.tryRow updates)
        match below.visit.found with
        | some cells =>
          return { below with visit := { below.visit with found := some (cell :: cells) } }
        | none =>
          let links ← below.visit.links.uncoverRow cell
          let node ← links.node cell
          let further ← tourRows descend column steps node.down links below.visit.stats.backtrack
          return { visit := further.visit, entered := below.entered ++ further.entered }

def tour (selector : Selector) :
    (levels : Nat) → (selected : List Nat) → Links → Stats → Except Fault Tour
  | 0, _, _, _ => .error .endless
  | levels + 1, selected, links, stats => do
    let stats := stats.enter selected.length
    match ← selector.pick links with
    | none => return { visit := { links, stats, found := some [] }, entered := [selected] }
    | some column =>
      let count ← links.count column
      if count = 0 then
        return { visit := { links, stats := stats.deadEnd, found := none }, entered := [selected] }
      let (links, updates) ← links.cover column
      let node ← links.node column
      let below ← tourRows (fun cell => tour selector levels (selected ++ [cell])) column links.size
        node.down links (stats.update updates)
      return { visit := below.visit, entered := selected :: below.entered }

end Recursive

namespace Machine

def history (selector : Selector) : (steps : Nat) → Machine → Except Fault (List Machine)
  | 0, m => if m.mode = .solved ∨ m.mode = .exhausted then .ok [] else .error .endless
  | steps + 1, m =>
    if m.mode = .solved ∨ m.mode = .exhausted then .ok []
    else do
      let next ← m.step selector
      let later ← history selector steps next
      return m :: later

def descents (states : List Machine) : List (List Choice) :=
  (states.filter fun m => m.mode = .descend).map stack

end Machine

namespace Links

/-- The cells of the partial solutions that a search enters, each of them first selected first. -/
def enteredCells (links : Links) (driver : Driver) (selector : Selector) :
    Except Fault (List (List Nat)) :=
  match driver with
  | .recursive => do
    let tour ← Recursive.tour selector links.searchLimit [] links {}
    return tour.entered
  | .iterative => do
    let states ← Machine.history selector links.searchLimit (.start links)
    return (Machine.descents states).map fun stack => stack.reverse.map Choice.cell

/-- The rows of the partial solutions that a search enters, in the order of entry. -/
def entered (links : Links) (driver : Driver) (selector : Selector) :
    Except Fault (List (List Nat)) := do
  let selections ← links.enteredCells driver selector
  selections.mapM fun cells => do
    let solution ← links.selectedRows cells
    return solution.rows

end Links

end ExactCover
