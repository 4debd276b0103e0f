import ExactCover.Search.Outcome
import ExactCover.Search.Selector
/-!
Algorithm X as a machine with an explicit stack of choices. Descending picks and covers a column
and pushes a choice of its first row; backtracking takes the last choice's row back and moves it one
cell down, and where no cell is left uncovers the column and drops the choice. Rows are tried in the
order of the recursion, so both find the same cover first.
-/

namespace ExactCover

/-- A covered column and the row that is selected in it, by its cell. -/
structure Choice where
  column : Nat
  cell : Nat
deriving DecidableEq, Repr

/-- What the machine does next, or how it has stopped. -/
inductive Mode
  | descend
  | backtrack
  | solved
  | exhausted
deriving DecidableEq, Repr

/-- A state of the search; the last choice is the first of the stack. -/
structure Machine where
  mode : Mode
  stack : List Choice
  links : Links
  stats : Stats
deriving DecidableEq

namespace Machine

def start (links : Links) : Machine := { mode := .descend, stack := [], links, stats := {} }

/-- Selects a row of a column that is already covered, on top of the given choices. -/
def select (stack : List Choice) (column cell : Nat) (links : Links) (stats : Stats) :
    Except Fault Machine := do
  let (links, updates) ← links.coverRow cell
  return { mode := .descend, stack := { column, cell } :: stack, links,
           stats := stats.tryRow updates }

def descend (selector : Selector) (m : Machine) : Except Fault Machine := do
  let stats := m.stats.enter m.stack.length
  match ← selector.pick m.links with
  | none => return { m with mode := .solved, stats }
  | some column =>
    let count ← m.links.count column
    if count = 0 then return { m with mode := .backtrack, stats := stats.deadEnd }
    let (links, updates) ← m.links.cover column
    let node ← links.node column
    select m.stack column node.down links (stats.update updates)

def backtrack (m : Machine) : Except Fault Machine :=
  match m.stack with
  | [] => .ok { m with mode := .exhausted }
  | choice :: stack => do
    let links ← m.links.uncoverRow choice.cell
    let stats := m.stats.backtrack
    let node ← links.node choice.cell
    if node.down = choice.column then
      let links ← links.uncover choice.column
      return { mode := .backtrack, stack, links, stats }
    select stack choice.column node.down links stats

def step (selector : Selector) (m : Machine) : Except Fault Machine :=
  match m.mode with
  | .descend => m.descend selector
  | .backtrack => m.backtrack
  | .solved | .exhausted => .ok m

def run (selector : Selector) : (steps : Nat) → Machine → Except Fault Machine
  | 0, m => if m.mode = .solved ∨ m.mode = .exhausted then .ok m else .error .endless
  | steps + 1, m =>
    if m.mode = .solved ∨ m.mode = .exhausted then .ok m
    else do
      let m ← m.step selector
      run selector steps m

def solve (selector : Selector) (links : Links) : Except Fault Outcome := do
  let m ← run selector links.searchLimit (start links)
  if m.mode = .solved then m.links.conclude m.stats (m.stack.reverse.map Choice.cell)
  else return { solution := none, stats := m.stats, links := m.links }

end Machine

end ExactCover
