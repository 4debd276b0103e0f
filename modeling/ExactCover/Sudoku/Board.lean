import ExactCover.Sudoku.Size
/-!
A grid of digits, 0 for an empty cell. A grid may have any shape and hold any numbers; whether it is
a finished sudoku is a question that can be asked of every grid.
-/

namespace ExactCover.Sudoku

structure Board where
  rows : List (List Nat)
deriving DecidableEq, Repr

namespace Board

/-- Cells on a side, if the grid is square. -/
def length (b : Board) : Nat := b.rows.length

def isEmpty (b : Board) : Bool := b.rows.isEmpty

def cell? (b : Board) (row col : Nat) : Option Nat := (b.rows[row]?.getD [])[col]?

/-- The number in a cell, 0 outside the grid. -/
def cell (b : Board) (row col : Nat) : Nat := (b.cell? row col).getD 0

/-- Whether the numbers are those from 1 to `n`, each of them once. -/
def isComplete (n : Nat) (cells : List Nat) : Bool :=
  cells.mergeSort == (List.range n).map (· + 1)

def column (b : Board) (n col : Nat) : List Nat := (List.range n).map fun row => b.cell row col

/-- The cells of a box, row by row; the boxes are counted row by row too. -/
def box (b : Board) (side index : Nat) : List Nat :=
  (List.range side).flatMap fun row => (List.range side).map fun col =>
    b.cell (index / side * side + row) (index % side * side + col)

/-- Whether the grid is a square of a sudoku's size in which every row, column and box holds each
digit once. -/
def isCompleteAndValid (b : Board) : Bool :=
  match Size.ofNat? b.length with
  | none => false
  | some size =>
    let n := size.toNat
    b.rows.all (fun row => row.length == n && isComplete n row) &&
      (List.range n).all (fun col => isComplete n (b.column n col)) &&
      (List.range n).all fun index => isComplete n (b.box size.boxSide index)

def columnPlaces (n col : Nat) : List (Nat × Nat) := (List.range n).map fun row => (row, col)

def boxPlaces (side index : Nat) : List (Nat × Nat) :=
  (List.range side).flatMap fun row => (List.range side).map fun col =>
    (index / side * side + row, index % side * side + col)

/-- Whether the places hold the numbers from 1 to `n`, each of them once; `none` if one of them is
outside the grid. -/
def isCompleteAt? (b : Board) (n : Nat) (places : List (Nat × Nat)) : Option Bool := do
  let cells ← places.mapM fun place => b.cell? place.1 place.2
  return isComplete n cells

/-- The same test, made in turn and with every row and cell looked up in the grid: `none` if that
looks outside of it. The columns are read only if every row is as long as it has to be. -/
def isCompleteAndValid? (b : Board) : Option Bool :=
  match Size.ofNat? b.length with
  | none => some false
  | some size => do
    let n := size.toNat
    let rows ← (List.range n).allM fun row => do
      let cells ← b.rows[row]?
      return cells.length == n && isComplete n cells
    if !rows then return false
    let columns ← (List.range n).allM fun col => b.isCompleteAt? n (columnPlaces n col)
    if !columns then return false
    (List.range n).allM fun index => b.isCompleteAt? n (boxPlaces size.boxSide index)

def padLeft (width : Nat) (text : List Char) : List Char :=
  List.replicate (width - text.length) ' ' ++ text

def cellText (digit : Nat) : List Char := if digit = 0 then ['.'] else Nat.toDigits 10 digit

/-- A line for each row, the cells as wide as the grid's length and one blank apart. -/
def toText (b : Board) : List Char :=
  let width := (Nat.toDigits 10 b.length).length
  b.rows.flatMap fun row =>
    [' '].intercalate (row.map fun digit => padLeft width (cellText digit)) ++ ['\n']

def display (b : Board) : String := String.ofList b.toText

end Board

end ExactCover.Sudoku
