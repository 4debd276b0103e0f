import ExactCover.Matrix.Basic
/-!
Sample matrices, small enough to follow their links by hand.
-/

namespace ExactCover

namespace Links

/-- Four rows over three columns; the second and the third of them cover. -/
def fourRows : Matrix where
  numColumns := 3
  rows := [[0, 1], [0, 2], [1], []]
  numColumns_pos := by decide
  rows_ne_nil := by decide
  ascending := by decide
  bounded := by decide

/-- The rows 0 and 1, the rows 0 and 3, and row 2 alone cover; row 4 is empty. -/
def threeCovers : Matrix where
  numColumns := 2
  rows := [[1], [0], [0, 1], [0], []]
  numColumns_pos := by decide
  rows_ne_nil := by decide
  ascending := by decide
  bounded := by decide

end Links

end ExactCover
