import ExactCover.Matrix.Construct
import ExactCover.Solution
import ExactCover.Sudoku.Puzzle
/-!
A sudoku as an exact cover. For a board of `n` by `n` cells the matrix has four blocks of `n * n`
columns: a cell is filled, a row holds a digit, a column holds a digit, a box holds a digit. Each
matrix row places one digit in one cell and sets one column of each block; a given digit is the only
placement of its cell. So an exact cover is a completed board.
-/

namespace ExactCover

namespace Sudoku

/-- A digit (from 1) in a cell (from 0). -/
structure Placement where
  row : Nat
  col : Nat
  digit : Nat
deriving DecidableEq, Repr

/-- The four columns that a placement sets. -/
def Placement.columns (p : Placement) (size : Size) : List Nat :=
  let n := size.toNat
  let side := size.boxSide
  let box := p.row / side * side + p.col / side
  [p.row * n + p.col, n * n + p.row * n + (p.digit - 1), 2 * n * n + p.col * n + (p.digit - 1),
   3 * n * n + box * n + (p.digit - 1)]

/-- The same, where the digit is one and the columns fit words. -/
def Placement.columns? (p : Placement) (size : Size) : Option (List Nat) :=
  let columns := p.columns size
  if p.digit = 0 || columns.any (wordMax < ·) then none else some columns

inductive ReductionError
  | missingCell (row col : Nat)
  | tooLarge (p : Placement)
  | matrix (cause : MatrixError)
deriving DecidableEq, Repr

def ReductionError.message : ReductionError → String
  | missingCell row col => s!"the board has no cell ({row}, {col})"
  | tooLarge p => s!"the digit {p.digit} in cell ({p.row}, {p.col}) leaves the word"
  | matrix cause => cause.message

/-- The exact cover form of a puzzle, with the placement behind each matrix row. -/
structure Cover where
  matrix : Matrix
  placements : List Placement
  size : Size
deriving DecidableEq

/-- The placements that a cell allows: every digit in an empty one, else the given digit. -/
def cellPlacements (n row col given : Nat) : List Placement :=
  if given = 0 then (List.range n).map fun d => { row, col, digit := d + 1 }
  else [{ row, col, digit := given }]

def positions (n : Nat) : List (Nat × Nat) :=
  (List.range n).flatMap fun row => (List.range n).map fun col => (row, col)

def placements (s : Sudoku) : Except ReductionError (List Placement) := do
  let cells ← (positions s.size.toNat).mapM fun (row, col) =>
    match s.board.cell? row col with
    | some given => .ok (cellPlacements s.size.toNat row col given)
    | none => .error (.missingCell row col)
  return cells.flatten

/-- The columns of a placement, all below `numColumns`; `row` is its place in the matrix. -/
def rangedColumns (size : Size) (numColumns row : Nat) (p : Placement) :
    Except ReductionError (List Nat) :=
  match p.columns? size with
  | none => .error (.tooLarge p)
  | some columns =>
    match columns.find? (fun column => decide (numColumns ≤ column)) with
    | some column => .error (.matrix (.columnOutOfRange row column numColumns))
    | none => .ok columns

/-- The exact cover form; contradictory givens have one too, only without an exact cover. -/
def toExactCover (s : Sudoku) : Except ReductionError Cover := do
  let n := s.size.toNat
  let placements ← s.placements
  let rows ← placements.zipIdx.mapM fun (p, row) => rangedColumns s.size (4 * n * n) row p
  match Matrix.ofSparse (4 * n * n) rows with
  | .error cause => throw (.matrix cause)
  | .ok matrix => return { matrix, placements, size := s.size }

namespace Cover

def placement? (c : Cover) (row : Nat) : Option Placement := c.placements[row]?

def write (cells : List (List Nat)) (p : Placement) : List (List Nat) :=
  cells.modify p.row fun row => row.set p.col p.digit

/-- The board that the listed rows fill; a cell that no row fills stays empty. -/
def decode (c : Cover) (s : Solution) : Board :=
  let n := c.size.toNat
  ⟨(s.rows.filterMap c.placement?).foldl write (List.replicate n (List.replicate n 0))⟩

end Cover

end Sudoku

end ExactCover
