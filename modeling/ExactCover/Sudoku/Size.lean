/-!
The sizes of a sudoku: squares of two to five, so that the boxes are square too.
-/

namespace ExactCover.Sudoku

inductive Size
  | four
  | nine
  | sixteen
  | twentyFive
deriving DecidableEq, Repr

namespace Size

/-- Cells on a side of the board. -/
def toNat : Size → Nat
  | four => 4
  | nine => 9
  | sixteen => 16
  | twentyFive => 25

/-- Cells on a side of a box. -/
def boxSide : Size → Nat
  | four => 2
  | nine => 3
  | sixteen => 4
  | twentyFive => 5

def ofNat? : Nat → Option Size
  | 4 => some four
  | 9 => some nine
  | 16 => some sixteen
  | 25 => some twentyFive
  | _ => none

theorem boxSide_mul_boxSide (size : Size) : size.boxSide * size.boxSide = size.toNat := by
  cases size <;> rfl

theorem ofNat?_toNat (size : Size) : ofNat? size.toNat = some size := by cases size <;> rfl

end Size

end ExactCover.Sudoku
