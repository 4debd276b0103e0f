import ExactCover.Matrix.Basic
/-!
What the search looks for, said without it: a set of rows with exactly one set entry in each column.
No two rows of such a set share their first set column, so a set of rows that all have one can be
listed in the order of these columns.
-/

namespace ExactCover.Matrix

/-- The listed rows are distinct rows of the matrix, and each column is set in exactly one of them. -/
structure IsExactCover (m : Matrix) (rows : List Nat) : Prop where
  nodup : rows.Nodup
  lt_numRows : ∀ row ∈ rows, row < m.numRows
  exists_unique : ∀ column < m.numColumns,
    ∃ row ∈ rows, m.isSet row column = true ∧ ∀ other ∈ rows, m.isSet other column = true → other = row

def HasExactCover (m : Matrix) : Prop := ∃ rows, m.IsExactCover rows

theorem IsExactCover.perm {m : Matrix} {rows others : List Nat} (h : m.IsExactCover rows)
    (hperm : rows.Perm others) : m.IsExactCover others where
  nodup := hperm.nodup_iff.1 h.nodup
  lt_numRows := fun row hrow => h.lt_numRows row (hperm.mem_iff.2 hrow)
  exists_unique := fun column hcolumn => by
    obtain ⟨row, hrow, hset, hunique⟩ := h.exists_unique column hcolumn
    exact ⟨row, hperm.mem_iff.1 hrow, hset, fun other hother =>
      hunique other (hperm.mem_iff.2 hother)⟩

/-- The smallest set column of a row; the number of columns where the row is empty. -/
def firstColumn (m : Matrix) (row : Nat) : Nat :=
  ((List.range m.numColumns).find? (m.isSet row)).getD m.numColumns

/-- Rows in the order of their smallest set columns. -/
def byFirstColumn (m : Matrix) (rows : List Nat) : List Nat :=
  rows.mergeSort fun row other => m.firstColumn row ≤ m.firstColumn other

end ExactCover.Matrix
