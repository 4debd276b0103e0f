import ExactCover.Links.Basic
/-!
The two moves of the dancing links and their inverses. Covering a column takes its header out of
the header list and every row that meets it out of all other columns; uncovering puts the same
nodes back in the opposite order. Covering a row covers the other columns that it meets.
-/

namespace ExactCover

namespace Links

/-- The largest live count: the word's end, or the number of nodes where the arena is larger. -/
def countLimit (links : Links) : Nat := max wordMax links.size

def decreaseCount (links : Links) (column : Nat) : Except Fault Links := do
  let count ← links.count column
  if count = 0 then throw (.countUnderflow column)
  return { links with counts := links.counts.modify column (· - 1) }

def increaseCount (links : Links) (column : Nat) : Except Fault Links := do
  let count ← links.count column
  if links.countLimit ≤ count then throw (.countOverflow column)
  return { links with counts := links.counts.modify column (· + 1) }

/-- Takes a cell out of its column; its own links stay. -/
def unlink (links : Links) (cell : Nat) : Except Fault Links := do
  let node ← links.node cell
  let links ← links.modifyNode node.up fun above => { above with down := node.down }
  let links ← links.modifyNode node.down fun below => { below with up := node.up }
  links.decreaseCount node.column

/-- Puts a cell back between the neighbours that it still names. -/
def relink (links : Links) (cell : Nat) : Except Fault Links := do
  let node ← links.node cell
  let links ← links.modifyNode node.up fun above => { above with down := cell }
  let links ← links.modifyNode node.down fun below => { below with up := cell }
  links.increaseCount node.column

def hideHeader (links : Links) (header : Nat) : Except Fault Links := do
  let node ← links.node header
  let links ← links.modifyNode node.left fun before => { before with right := node.right }
  links.modifyNode node.right fun after => { after with left := node.left }

def showHeader (links : Links) (header : Nat) : Except Fault Links := do
  let node ← links.node header
  let links ← links.modifyNode node.left fun before => { before with right := header }
  links.modifyNode node.right fun after => { after with left := header }

/-- Changes the nodes from `cell` on, in the direction of `horizontal`, up to and without `row`.
Each step reads the links as the change before it has left them; `changed` counts the steps. -/
@[specialize] def sweepRow (horizontal : Node → Nat) (change : Links → Nat → Except Fault Links)
    (row : Nat) : (steps cell changed : Nat) → Links → Except Fault (Links × Nat)
  | 0, cell, changed, links => if cell = row then .ok (links, changed) else .error .endless
  | steps + 1, cell, changed, links =>
    if cell = row then .ok (links, changed)
    else do
      let links ← change links cell
      let node ← links.node cell
      sweepRow horizontal change row steps (horizontal node) (changed + 1) links

/-- Sweeps the rows of the cells from `row` on, in the direction of `vertical`, up to and without
the header `column`; the cells of the column itself are not changed. -/
@[specialize] def sweepColumn (vertical horizontal : Node → Nat)
    (change : Links → Nat → Except Fault Links) (column : Nat) :
    (steps row changed : Nat) → Links → Except Fault (Links × Nat)
  | 0, row, changed, links => if row = column then .ok (links, changed) else .error .endless
  | steps + 1, row, changed, links =>
    if row = column then .ok (links, changed)
    else do
      let node ← links.node row
      let (links, changed) ←
        sweepRow horizontal change row links.size (horizontal node) changed links
      let node ← links.node row
      sweepColumn vertical horizontal change column steps (vertical node) changed links

/-- Covers a column: its header leaves the header list, and the rows that meet it leave all other
columns, top to bottom and left to right. The number is that of links taken out. -/
def cover (links : Links) (column : Nat) : Except Fault (Links × Nat) := do
  if !links.isHeader column then throw (.notHeader column)
  let links ← links.hideHeader column
  let node ← links.node column
  sweepColumn Node.down Node.right unlink column links.size node.down 1 links

/-- Takes a cover back: the same cells, bottom to top and right to left, and the header last. -/
def uncover (links : Links) (column : Nat) : Except Fault Links := do
  if !links.isHeader column then throw (.notHeader column)
  let node ← links.node column
  let (links, _) ← sweepColumn Node.up Node.left relink column links.size node.up 0 links
  links.showHeader column

/-- Covers the columns of the nodes from `other` rightwards up to `cell`. Each step reads the links
as the covers before it have left them. -/
def coverFrom (cell : Nat) : (steps : Nat) → (other : Nat) → Links → Except Fault (Links × Nat)
  | 0, other, links => if other = cell then .ok (links, 0) else .error .endless
  | steps + 1, other, links =>
    if other = cell then .ok (links, 0)
    else do
      let node ← links.node other
      let (links, updates) ← links.cover node.column
      let node ← links.node other
      let (links, further) ← coverFrom cell steps node.right links
      return (links, updates + further)

/-- Covers every other column that the row of `cell` meets, rightwards from the cell. -/
def coverRow (links : Links) (cell : Nat) : Except Fault (Links × Nat) := do
  let node ← links.node cell
  coverFrom cell links.size node.right links

/-- Uncovers the columns of the nodes from `other` leftwards up to `cell`. -/
def uncoverFrom (cell : Nat) : (steps : Nat) → (other : Nat) → Links → Except Fault Links
  | 0, other, links => if other = cell then .ok links else .error .endless
  | steps + 1, other, links =>
    if other = cell then .ok links
    else do
      let node ← links.node other
      let links ← links.uncover node.column
      let node ← links.node other
      uncoverFrom cell steps node.left links

/-- Takes a row cover back: the same columns, leftwards from the cell. -/
def uncoverRow (links : Links) (cell : Nat) : Except Fault Links := do
  let node ← links.node cell
  uncoverFrom cell links.size node.left links

end Links

inductive Move
  | cover (column : Nat)
  | uncover (column : Nat)
  | coverRow (cell : Nat)
  | uncoverRow (cell : Nat)
deriving DecidableEq, Repr

def Links.move (links : Links) : Move → Except Fault (Links × Option Nat)
  | .cover column => do
    let (links, updates) ← links.cover column
    return (links, some updates)
  | .uncover column => do
    let links ← links.uncover column
    return (links, none)
  | .coverRow cell => do
    let (links, updates) ← links.coverRow cell
    return (links, some updates)
  | .uncoverRow cell => do
    let links ← links.uncoverRow cell
    return (links, none)

end ExactCover
