/-!
A 0/1 matrix with at least one row and one column. Only the set columns of a row are kept, so a
large and thin matrix stays small; the type fixes one representation for each matrix, which makes
`=` the equality of entries.
-/

namespace ExactCover

/-- A 0/1 matrix, never empty; each row is the strictly ascending list of its set columns. -/
structure Matrix where
  numColumns : Nat
  rows : List (List Nat)
  numColumns_pos : 0 < numColumns
  rows_ne_nil : rows ≠ []
  ascending : ∀ row ∈ rows, row.Pairwise (· < ·)
  bounded : ∀ row ∈ rows, ∀ column ∈ row, column < numColumns
deriving DecidableEq

inductive MatrixError
  | noRows
  | noColumns
  | ragged (row expected found : Nat)
  | invalidEntry (row column value : Nat)
  | columnOutOfRange (row column numColumns : Nat)
deriving DecidableEq, Repr

def MatrixError.message : MatrixError → String
  | noRows => "matrix must contain at least one row"
  | noColumns => "matrix must contain at least one column"
  | ragged row expected found => s!"row {row} has {found} columns, expected {expected}"
  | invalidEntry row column value =>
    s!"entry ({row}, {column}) is {value}, only 0 and 1 are allowed"
  | columnOutOfRange row column numColumns =>
    s!"row {row} references column {column}, but the matrix has {numColumns} columns"

namespace Matrix

def numRows (m : Matrix) : Nat := m.rows.length

def numOnes (m : Matrix) : Nat := m.rows.flatten.length

/-- The set columns of a row, ascending; `none` below the last row. -/
def ones? (m : Matrix) (row : Nat) : Option (List Nat) := m.rows[row]?

def entry? (m : Matrix) (row column : Nat) : Option Bool :=
  match m.ones? row with
  | none => none
  | some ones => if column < m.numColumns then some (ones.contains column) else none

/-- Whether an entry is set; nothing is set outside the matrix. -/
def isSet (m : Matrix) (row column : Nat) : Bool := m.entry? row column == some true

/-- The `count` entries from column `first` on, for a row whose set columns from there are `ones`. -/
def denseFrom (first : Nat) : (count : Nat) → (ones : List Nat) → List Bool
  | 0, _ => []
  | count + 1, [] => false :: denseFrom (first + 1) count []
  | count + 1, one :: ones =>
    if one = first then true :: denseFrom (first + 1) count ones
    else false :: denseFrom (first + 1) count (one :: ones)

def dense (m : Matrix) : List (List Bool) := m.rows.map (denseFrom 0 m.numColumns)

def bits? (m : Matrix) (row : Nat) : Option (List Bool) :=
  (m.ones? row).map (denseFrom 0 m.numColumns)

theorem length_denseFrom (first count : Nat) (ones : List Nat) :
    (denseFrom first count ones).length = count := by
  induction count generalizing first ones with
  | zero => simp [denseFrom]
  | succ count ih =>
    cases ones with
    | nil => simp [denseFrom, ih]
    | cons one ones => by_cases h : one = first <;> simp [denseFrom, h, ih]

theorem numRows_pos (m : Matrix) : 0 < m.numRows := List.length_pos_iff.2 m.rows_ne_nil

end Matrix

end ExactCover
