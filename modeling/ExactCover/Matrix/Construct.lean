import ExactCover.Ascending
import ExactCover.Matrix.Basic
/-!
The three ways to list a matrix: entry by entry, byte by byte, and by the set columns of each row.
All of them check the shape and end in the one representation of `Matrix`.
-/

namespace ExactCover

/-- The set columns of a row whose first entry stands in column `first`. -/
def setColumnsFrom (first : Nat) : List Bool → List Nat
  | [] => []
  | true :: bits => first :: setColumnsFrom (first + 1) bits
  | false :: bits => setColumnsFrom (first + 1) bits

theorem le_of_mem_setColumnsFrom {first column : Nat} {bits : List Bool}
    (h : column ∈ setColumnsFrom first bits) : first ≤ column := by
  induction bits generalizing first with
  | nil => simp [setColumnsFrom] at h
  | cons bit bits ih =>
    cases bit with
    | false =>
      have : first + 1 ≤ column := ih (by simpa [setColumnsFrom] using h)
      omega
    | true =>
      simp only [setColumnsFrom, List.mem_cons] at h
      rcases h with rfl | h
      · exact Nat.le_refl _
      · have := ih h
        omega

theorem lt_of_mem_setColumnsFrom {first column : Nat} {bits : List Bool}
    (h : column ∈ setColumnsFrom first bits) : column < first + bits.length := by
  induction bits generalizing first with
  | nil => simp [setColumnsFrom] at h
  | cons bit bits ih =>
    rw [List.length_cons]
    cases bit with
    | false =>
      have : column < first + 1 + bits.length := ih (by simpa [setColumnsFrom] using h)
      omega
    | true =>
      simp only [setColumnsFrom, List.mem_cons] at h
      rcases h with rfl | h
      · omega
      · have := ih h
        omega

theorem pairwise_setColumnsFrom (first : Nat) (bits : List Bool) :
    (setColumnsFrom first bits).Pairwise (· < ·) := by
  induction bits generalizing first with
  | nil => exact .nil
  | cons bit bits ih =>
    cases bit with
    | false => exact ih _
    | true => exact .cons (fun _ h => le_of_mem_setColumnsFrom h) (ih _)

namespace Matrix

/-- The first row whose length is not `expected`, with its length. -/
def firstRagged (expected : Nat) (rows : List (List Bool)) : Option (Nat × Nat) :=
  rows.zipIdx.findSome? fun (row, index) =>
    if row.length = expected then none else some (index, row.length)

theorem length_eq_of_firstRagged {expected : Nat} {rows : List (List Bool)}
    (h : firstRagged expected rows = none) {row : List Bool} (hrow : row ∈ rows) :
    row.length = expected := by
  obtain ⟨index, hindex⟩ := List.mem_iff_getElem?.1 hrow
  have := List.findSome?_eq_none_iff.1 h (row, index)
    (List.mem_zipIdx_iff_getElem?.2 (by simpa using hindex))
  simpa using this

/-- Entry by entry: the first row fixes the width, and every row has to have it. -/
def ofDense (rows : List (List Bool)) : Except MatrixError Matrix :=
  match hrows : rows with
  | [] => .error .noRows
  | first :: _ =>
    if hwidth : first.length = 0 then .error .noColumns
    else match hragged : firstRagged first.length rows with
      | some (row, found) => .error (.ragged row first.length found)
      | none => .ok {
          numColumns := first.length
          rows := rows.map (setColumnsFrom 0)
          numColumns_pos := Nat.pos_of_ne_zero hwidth
          rows_ne_nil := by simp [hrows]
          ascending := by
            intro row h
            obtain ⟨bits, -, rfl⟩ := List.mem_map.1 h
            exact pairwise_setColumnsFrom 0 bits
          bounded := by
            intro row h column hcolumn
            obtain ⟨bits, hbits, rfl⟩ := List.mem_map.1 h
            have := lt_of_mem_setColumnsFrom hcolumn
            rw [length_eq_of_firstRagged hragged hbits] at this
            omega }

def firstInvalid (rows : List (List UInt8)) : Option MatrixError :=
  rows.zipIdx.findSome? fun (row, r) =>
    row.zipIdx.findSome? fun (value, c) =>
      if 1 < value then some (.invalidEntry r c value.toNat) else none

/-- Byte by byte: a value above 1 is refused before the shape is looked at. -/
def ofBytes (rows : List (List UInt8)) : Except MatrixError Matrix :=
  match firstInvalid rows with
  | some error => .error error
  | none => ofDense (rows.map (List.map (· == 1)))

def firstOutOfRange (numColumns : Nat) (rows : List (List Nat)) : Option (Nat × Nat) :=
  rows.zipIdx.findSome? fun (row, index) =>
    (row.find? (fun column => decide (numColumns ≤ column))).map fun column => (index, column)

theorem lt_of_firstOutOfRange {numColumns : Nat} {rows : List (List Nat)}
    (h : firstOutOfRange numColumns rows = none) {row : List Nat} (hrow : row ∈ rows)
    {column : Nat} (hcolumn : column ∈ row) : column < numColumns := by
  obtain ⟨index, hindex⟩ := List.mem_iff_getElem?.1 hrow
  have hnone := List.findSome?_eq_none_iff.1 h (row, index)
    (List.mem_zipIdx_iff_getElem?.2 (by simpa using hindex))
  have := List.find?_eq_none.1 (Option.map_eq_none_iff.1 hnone) column hcolumn
  simpa using this

/-- By the set columns of each row, in any order and with repeats. -/
def ofSparse (numColumns : Nat) (rows : List (List Nat)) : Except MatrixError Matrix :=
  if hcolumns : numColumns = 0 then .error .noColumns
  else match hrange : firstOutOfRange numColumns rows with
    | some (row, column) => .error (.columnOutOfRange row column numColumns)
    | none =>
      if hrows : rows = [] then .error .noRows
      else .ok {
        numColumns
        rows := rows.map ascend
        numColumns_pos := Nat.pos_of_ne_zero hcolumns
        rows_ne_nil := by simpa using hrows
        ascending := by
          intro row h
          obtain ⟨listed, -, rfl⟩ := List.mem_map.1 h
          exact pairwise_ascend listed
        bounded := by
          intro row h column hcolumn
          obtain ⟨listed, hlisted, rfl⟩ := List.mem_map.1 h
          exact lt_of_firstOutOfRange hrange hlisted (mem_ascend.1 hcolumn) }

end Matrix

end ExactCover
