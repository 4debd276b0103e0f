import Mathlib.Data.Finset.Powerset
import Mathlib.Data.Finset.Range
import ExactCover.Matrix.Samples
/-!
Sets of rows that may stand together in an exact cover: none of them is empty, and no two of them
share a column. There are finitely many, so they can be counted.
-/

namespace ExactCover

namespace Matrix

/-- Each row of the set sets a column, and no other row of the set sets it too. -/
def IsPacking (m : Matrix) (rows : Finset Nat) : Prop :=
  (∀ row ∈ rows, ∃ column < m.numColumns, m.isSet row column = true) ∧
  ∀ row ∈ rows, ∀ other ∈ rows, ∀ column < m.numColumns,
    m.isSet row column = true → m.isSet other column = true → other = row

instance (m : Matrix) (rows : Finset Nat) : Decidable (m.IsPacking rows) :=
  inferInstanceAs (Decidable (_ ∧ _))

def packings (m : Matrix) : Finset (Finset Nat) :=
  (Finset.range m.numRows).powerset.filter m.IsPacking

/-- The empty set, three single rows, and the rows 1 and 2 together. -/
example : Links.fourRows.packings.card = 5 := by decide

end Matrix

end ExactCover
