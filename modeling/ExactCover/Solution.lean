import ExactCover.Ascending
import ExactCover.Matrix.Basic
/-!
A listing of matrix rows, and the test of whether it is an exact cover. The order is that of
selection and counts for equality; the test does not see it.
-/

namespace ExactCover

/-- Adds one to the count of each listed number; a number without a count is passed over. -/
def addCounts (counts : Array Nat) (listed : List Nat) : Array Nat :=
  listed.foldl (fun counts n => counts.modify n (· + 1)) counts

theorem getElem?_addCounts (counts : Array Nat) (listed : List Nat) (n : Nat) :
    (addCounts counts listed)[n]? = counts[n]?.map (· + listed.count n) := by
  induction listed generalizing counts with
  | nil => simp [addCounts]
  | cons m listed ih =>
    have hstep : addCounts counts (m :: listed) = addCounts (counts.modify m (· + 1)) listed := rfl
    rw [hstep, ih, Array.getElem?_modify, List.count_cons]
    by_cases h : m = n
    · cases counts[n]? with
      | none => simp
      | some count =>
        simp only [h, beq_self_eq_true, if_true, Option.map_some, Option.some.injEq]
        omega
    · simp [h]

def tally (size : Nat) (listed : List Nat) : List Nat :=
  (addCounts (Array.replicate size 0) listed).toList

theorem tally_eq_map_count (size : Nat) (listed : List Nat) :
    tally size listed = (List.range size).map fun n => listed.count n := by
  apply List.ext_getElem?
  intro n
  rw [tally, Array.getElem?_toList, getElem?_addCounts, Array.getElem?_replicate,
    List.getElem?_map]
  split
  case isTrue h => simp [List.getElem?_range h]
  case isFalse h => simp [Nat.le_of_not_lt h]

def countOne? (counts : Array Nat) (n : Nat) : Option (Array Nat) :=
  if n < counts.size then some (counts.modify n (· + 1)) else none

/-- Whether the rows, taken one after the other, are in range and none of them has been seen before. -/
def areNew (numRows : Nat) (seen : List Nat) : List Nat → Bool
  | [] => true
  | row :: rest => row < numRows && !seen.contains row && areNew numRows (row :: seen) rest

/-- Rows of a matrix in the order in which they were selected. -/
structure Solution where
  rows : List Nat
deriving DecidableEq, Repr

namespace Solution

def empty : Solution := ⟨[]⟩

def sorted (s : Solution) : List Nat := s.rows.mergeSort

def row? (s : Solution) (index : Nat) : Option Nat := s.rows[index]?

def isDistinct (s : Solution) : Bool := (ascend s.rows).length == s.rows.length

theorem isDistinct_iff {s : Solution} : s.isDistinct = true ↔ s.rows.Nodup :=
  beq_iff_eq.trans length_ascend_eq_iff

/-- The set columns of all listed rows; rows outside the matrix set none. -/
def setColumns (s : Solution) (m : Matrix) : List Nat :=
  let rows := m.rows.toArray
  s.rows.flatMap fun row => rows[row]?.getD []

theorem setColumns_eq (s : Solution) (m : Matrix) :
    s.setColumns m = s.rows.flatMap fun row => (m.ones? row).getD [] := by
  simp [setColumns, Matrix.ones?]

def columnCounts (s : Solution) (m : Matrix) : List Nat := tally m.numColumns (s.setColumns m)

def verify (s : Solution) (m : Matrix) : Bool :=
  let numRows := m.numRows
  s.rows.all (· < numRows) && s.isDistinct && (s.columnCounts m).all (· == 1)

/-- The same counts, taken row by row and column by column: `none` if that read a row outside the
matrix, or counted a column for which there is no count. -/
def columnCounts? (s : Solution) (m : Matrix) : Option (List Nat) := do
  let rows := s.rows.filter (· < m.numRows)
  let counts ← rows.foldlM (fun counts row => do (← m.ones? row).foldlM countOne? counts)
    (Array.replicate m.numColumns 0)
  return counts.toList

/-- The same test, made in turn: the columns are counted only if every row is new. -/
def verify? (s : Solution) (m : Matrix) : Option Bool :=
  if areNew m.numRows [] s.rows then (s.columnCounts? m).map fun counts => counts.all (· == 1)
  else some false

def listing (rows : List Nat) : String :=
  let inner := ", ".intercalate (rows.map toString)
  s!"[{inner}]"

def display (s : Solution) : String := listing s.rows

end Solution

end ExactCover
