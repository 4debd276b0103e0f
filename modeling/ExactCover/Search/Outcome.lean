import ExactCover.Links.Cover
import ExactCover.Solution
/-!
What a search counts and what it returns, and the steps that both drivers share: reading the
selected rows off and taking their covers back.
-/

namespace ExactCover

structure Stats where
  /-- Partial solutions entered, the empty one included. -/
  nodes : Nat := 0
  /-- Rows added to a partial solution. -/
  rowsTried : Nat := 0
  /-- Rows taken back because they led nowhere. -/
  backtracks : Nat := 0
  /-- Partial solutions given up because the picked column had no live cell. -/
  deadEnds : Nat := 0
  updates : Nat := 0
  /-- The most rows in a partial solution. -/
  maxDepth : Nat := 0
deriving DecidableEq, Repr

namespace Stats

def enter (stats : Stats) (depth : Nat) : Stats :=
  { stats with nodes := stats.nodes + 1, maxDepth := max stats.maxDepth depth }

def deadEnd (stats : Stats) : Stats := { stats with deadEnds := stats.deadEnds + 1 }

def update (stats : Stats) (updates : Nat) : Stats :=
  { stats with updates := stats.updates + updates }

def tryRow (stats : Stats) (updates : Nat) : Stats :=
  { stats with rowsTried := stats.rowsTried + 1, updates := stats.updates + updates }

def backtrack (stats : Stats) : Stats := { stats with backtracks := stats.backtracks + 1 }

end Stats

/-- The end of a search: the first exact cover or none, the counts, and the links afterwards. -/
structure Outcome where
  solution : Option Solution
  stats : Stats
  links : Links
deriving DecidableEq

namespace Links

def selectedRows (links : Links) (cells : List Nat) : Except Fault Solution := do
  let nodes ← cells.mapM links.node
  return ⟨nodes.filterMap Node.row⟩

/-- Takes back the covers of a selected cell: of its row, then of its own column. -/
def deselect (links : Links) (cell : Nat) : Except Fault Links := do
  let links ← links.uncoverRow cell
  let node ← links.node cell
  links.uncover node.column

/-- Reads a solution off its cells, first selected first, and takes their covers back, last
selected first. -/
def conclude (links : Links) (stats : Stats) (cells : List Nat) : Except Fault Outcome := do
  let solution ← links.selectedRows cells
  let links ← cells.reverse.foldlM deselect links
  return { solution := some solution, stats, links }

/-- More steps than a search can take: it selects a set of cells at most once. The summand keeps
the number out of reach also where the moves have been misused before. -/
def searchLimit (links : Links) : Nat := Nat.pow 2 (links.size + 64)

end Links

end ExactCover
