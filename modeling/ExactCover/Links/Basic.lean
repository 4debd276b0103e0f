import ExactCover.Word
/-!
The dancing links: every set entry of a matrix, every column header and one root are nodes of an
arena and name their four neighbours by position. Node 0 is the root, nodes 1 to `numColumns` are
the headers, the cells follow row by row.

A node that is taken out of a list keeps its own links, and that is what lets it be put back. So a
structure may hold lists that never close; every walk therefore counts its steps, and one that has
taken as many steps as there are nodes is reported as endless. A walk that does come back never
gets that far, because it meets no node twice.
-/

namespace ExactCover

/-- A node of the arena; headers and the root carry no row and are their own column. -/
structure Node where
  left : Nat
  right : Nat
  up : Nat
  down : Nat
  column : Nat
  row : Option Nat
deriving DecidableEq, Repr

/-- The arena with the live count of each header (slot 0 is the root's and stays 0). -/
structure Links where
  nodes : Array Node
  counts : Array Nat
  numColumns : Nat
  numRows : Nat
deriving DecidableEq

inductive Fault
  | outOfRange (id : Nat)
  | notHeader (id : Nat)
  | countUnderflow (column : Nat)
  | countOverflow (column : Nat)
  | endless
deriving DecidableEq, Repr

def Fault.message : Fault → String
  | outOfRange id => s!"there is no node {id}"
  | notHeader id => s!"not a column header: {id}"
  | countUnderflow column => s!"the live count of column {column} falls below zero"
  | countOverflow column => s!"the live count of column {column} leaves the word"
  | endless => "a list of nodes never returns to its start"

def root : Nat := 0

namespace Links

def empty : Links := { nodes := #[], counts := #[], numColumns := 0, numRows := 0 }

/-- How many nodes there are, root and headers included. -/
def size (links : Links) : Nat := links.nodes.size

def isEmpty (links : Links) : Bool := links.size ≤ 1

def numCells (links : Links) : Nat := links.size - (1 + links.numColumns)

def isHeader (links : Links) (id : Nat) : Bool := id ≠ root && id ≤ links.numColumns

/-- The header of a matrix column; `none` past the end of the word. -/
def header? (column : Nat) : Option Nat := if column < wordMax then some (column + 1) else none

def columnIndex? : (header : Nat) → Option Nat
  | 0 => none
  | column + 1 => some column

def node (links : Links) (id : Nat) : Except Fault Node :=
  match links.nodes[id]? with
  | some node => .ok node
  | none => .error (.outOfRange id)

def count (links : Links) (id : Nat) : Except Fault Nat :=
  match links.counts[id]? with
  | some count => .ok count
  | none => .error (.outOfRange id)

@[inline] def modifyNode (links : Links) (id : Nat) (change : Node → Node) : Except Fault Links :=
  if id < links.nodes.size then .ok { links with nodes := links.nodes.modify id change }
  else .error (.outOfRange id)

/-- The nodes from `id` on, in the direction of `next`, up to and without `stop`. -/
def walk (links : Links) (next : Node → Nat) (stop : Nat) :
    (steps : Nat) → (id : Nat) → Except Fault (List Nat)
  | 0, id => if id = stop then .ok [] else .error .endless
  | steps + 1, id =>
    if id = stop then .ok []
    else do
      let node ← links.node id
      let rest ← links.walk next stop steps (next node)
      return id :: rest

/-- The other nodes of the list that `start` lies in, in the direction of `next`. -/
def ring (links : Links) (next : Node → Nat) (start : Nat) : Except Fault (List Nat) := do
  let node ← links.node start
  links.walk next start links.size (next node)

def columns (links : Links) : Except Fault (List Nat) := links.ring Node.right root

def columnCells (links : Links) (column : Nat) : Except Fault (List Nat) :=
  links.ring Node.down column

/-- The other cells of a cell's row, left to right from the cell on. -/
def rowCells (links : Links) (cell : Nat) : Except Fault (List Nat) := links.ring Node.right cell

def activeColumns (links : Links) : Except Fault (List Nat) := do
  let headers ← links.columns
  return headers.map (· - 1)

def isSolved (links : Links) : Except Fault Bool := do
  let node ← links.node root
  return node.right == root

def display (links : Links) : Except Fault String := do
  let headers ← links.columns
  let active ← headers.mapM fun header => do
    let count ← links.count header
    return s!"{header - 1}:{count}"
  let listed := ", ".intercalate active
  return s!"columns={links.numColumns} rows={links.numRows} cells={links.numCells} " ++
    s!"active=[{listed}]"

end Links

end ExactCover
