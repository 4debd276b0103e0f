import Mathlib.Logic.ExistsUnique
import ExactCover.Sudoku.Puzzle
/-!
What a puzzle asks for, said without its exact cover form: a board that keeps the givens and holds
each digit once in every row, every column and every box.
-/

namespace ExactCover.Sudoku

/-- The ways in which a board is divided into houses, each of which has to hold every digit. -/
inductive House
  | row
  | column
  | box
deriving DecidableEq

/-- The number of the house that a cell lies in: of its row, of its column, or of its box, where the
boxes are counted row by row. -/
def House.index (size : Size) (row col : Nat) : House → Nat
  | .row => row
  | .column => col
  | .box => row / size.boxSide * size.boxSide + col / size.boxSide

structure Board.IsSquare (n : Nat) (b : Board) : Prop where
  length_rows : b.rows.length = n
  length_row : ∀ cells ∈ b.rows, cells.length = n

def Board.HoldsOnce (size : Size) (grid : Board) (house : House) (index digit : Nat) : Prop :=
  ∃! cell : Nat × Nat, cell.1 < size.toNat ∧ cell.2 < size.toNat ∧
    house.index size cell.1 cell.2 = index ∧ grid.cell cell.1 cell.2 = digit

/-- A full board: a square of the size in which every house holds each digit once. -/
structure Board.IsSolved (size : Size) (grid : Board) : Prop extends grid.IsSquare size.toNat where
  once : ∀ (house : House), ∀ index < size.toNat, ∀ digit, 1 ≤ digit → digit ≤ size.toNat →
    grid.HoldsOnce size house index digit

/-- A full board that keeps the givens of a puzzle. -/
structure IsCompletion (s : Sudoku) (grid : Board) : Prop extends grid.IsSolved s.size where
  keeps : ∀ row col, s.board.cell row col ≠ 0 → grid.cell row col = s.board.cell row col

end ExactCover.Sudoku
