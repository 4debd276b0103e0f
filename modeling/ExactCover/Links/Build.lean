import ExactCover.Capacity
import ExactCover.Links.Basic
import ExactCover.Matrix.Basic
/-!
The links of a matrix: the headers in one ring around the root, and below them, row by row, one
cell for each set entry. Every node is added at the end of the rings that it belongs to, so each
stage of the building is the structure of the entries seen so far.
-/

namespace ExactCover

def Node.detached (id column : Nat) (row : Option Nat) : Node :=
  { left := id, right := id, up := id, down := id, column, row }

namespace Links

def bare (numColumns numRows : Nat) : Links where
  nodes := #[.detached root root none]
  counts := Array.replicate (numColumns + 1) 0
  numColumns
  numRows

def addNode (links : Links) (column : Nat) (row : Option Nat) : Links :=
  { links with nodes := links.nodes.push (.detached links.size column row) }

/-- Splices a node into a horizontal ring, to the left of `anchor`. -/
def insertBefore (links : Links) (anchor id : Nat) : Links :=
  match links.nodes[anchor]? with
  | none => links
  | some node =>
    let nodes := links.nodes.modify id fun new => { new with left := node.left, right := anchor }
    let nodes := nodes.modify node.left fun last => { last with right := id }
    { links with nodes := nodes.modify anchor fun first => { first with left := id } }

/-- Hangs a cell below the last one of a column. -/
def hang (links : Links) (header id : Nat) : Links :=
  match links.nodes[header]? with
  | none => links
  | some node =>
    let nodes := links.nodes.modify id fun new => { new with up := node.up, down := header }
    let nodes := nodes.modify node.up fun bottom => { bottom with down := id }
    { links with
      nodes := nodes.modify header fun top => { top with up := id }
      counts := links.counts.modify header (· + 1) }

def appendHeader (links : Links) : Links :=
  (links.addNode links.size none).insertBefore root links.size

/-- Appends a cell at the end of a row, of which `first` is the first cell so far. -/
def appendCell (row : Nat) : Links × Option Nat → (column : Nat) → Links × Option Nat
  | (links, first), column =>
    let cell := links.size
    let links := (links.addNode (column + 1) (some row)).hang (column + 1) cell
    match first with
    | none => (links, some cell)
    | some head => (links.insertBefore head cell, some head)

def appendRow (links : Links) (row : Nat) (columns : List Nat) : Links :=
  (columns.foldl (appendCell row) (links, none)).1

def ofMatrix (m : Matrix) : Links :=
  m.rows.zipIdx.foldl (fun links (columns, row) => links.appendRow row columns)
    (Nat.repeat appendHeader m.numColumns (bare m.numColumns m.numRows))

/-- The links of a matrix, unless they have more nodes than a list holds. -/
def build (m : Matrix) : Except Overflow Links :=
  let nodes := 1 + m.numColumns + m.numOnes
  if nodeLimit < nodes then .error (.nodes nodes) else .ok (ofMatrix m)

end Links

end ExactCover
