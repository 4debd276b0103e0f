import Mathlib.Data.List.Nodup
import Mathlib.Data.List.Perm.Subperm
import Mathlib.Data.List.Sort
import ExactCover.Ascending
import ExactCover.Sudoku.Completion
/-!
Full boards and the test for them. A house has as many cells as there are digits, so once every digit
is found among its cells, none is left for anything else.
-/

namespace ExactCover.Sudoku

namespace Size

theorem boxSide_pos (size : Size) : 0 < size.boxSide := by cases size <;> decide

theorem toNat_pos (size : Size) : 0 < size.toNat := by cases size <;> decide

theorem div_boxSide_lt {size : Size} {a : Nat} (h : a < size.toNat) :
    a / size.boxSide < size.boxSide := by
  rw [← size.boxSide_mul_boxSide] at h
  exact Nat.div_lt_of_lt_mul h

end Size

namespace House

variable {size : Size} {row col : Nat}

theorem index_lt (house : House) (hrow : row < size.toNat) (hcol : col < size.toNat) :
    house.index size row col < size.toNat := by
  cases house with
  | row => exact hrow
  | column => exact hcol
  | box =>
    rw [← size.boxSide_mul_boxSide, index, Nat.mul_comm]
    exact Nat.mul_add_lt_mul_of_lt_of_lt (Size.div_boxSide_lt hrow) (Size.div_boxSide_lt hcol)

end House

namespace Board

variable {b grid : Board} {size : Size} {n row col side digit : Nat} {cells : List Nat}

theorem mem_digits : digit ∈ (List.range n).map (· + 1) ↔ 1 ≤ digit ∧ digit ≤ n := by
  rw [List.mem_map]
  constructor
  · rintro ⟨d, hd, rfl⟩
    have := List.mem_range.1 hd
    omega
  · intro h
    exact ⟨digit - 1, List.mem_range.2 (by omega), by omega⟩

theorem isComplete_iff : isComplete n cells = true ↔ cells.Perm ((List.range n).map (· + 1)) := by
  rw [isComplete, beq_iff_eq]
  constructor
  · intro h
    rw [← h]
    exact (List.mergeSort_perm _ _).symm
  · intro h
    have hdigits : ((List.range n).map (· + 1)).Pairwise (· ≤ ·) :=
      List.pairwise_map.2 (List.pairwise_le_range.imp Nat.succ_le_succ)
    exact ((List.mergeSort_perm _ _).trans h).eq_of_pairwise' (pairwise_mergeSort_le cells) hdigits

/-- As many cells as digits are complete when no digit is missing. -/
theorem isComplete_of_forall_mem (hlength : cells.length = n)
    (h : ∀ digit, 1 ≤ digit → digit ≤ n → digit ∈ cells) : isComplete n cells = true := by
  -- The digits are a list without repeats inside the cells and no shorter than them.
  have hnodup : ((List.range n).map (· + 1)).Nodup :=
    List.nodup_range.map fun _ _ heq => Nat.succ.inj heq
  have hsub : (List.range n).map (· + 1) ⊆ cells := fun digit hmem =>
    h digit (mem_digits.1 hmem).1 (mem_digits.1 hmem).2
  have hle : cells.length ≤ ((List.range n).map (· + 1)).length := by simp [hlength]
  exact isComplete_iff.2 ((hnodup.subperm hsub).perm_of_length_le hle).symm

theorem range_of_isComplete (h : isComplete n cells = true) (hmem : digit ∈ cells) :
    1 ≤ digit ∧ digit ≤ n :=
  mem_digits.1 ((isComplete_iff.1 h).mem_iff.1 hmem)

theorem cell?_eq_some_iff : b.cell? row col = some digit ↔
    ∃ cells, b.rows[row]? = some cells ∧ cells[col]? = some digit := by
  unfold cell?
  cases b.rows[row]? <;> simp

theorem cell?_of_cell_ne_zero (h : b.cell row col ≠ 0) :
    b.cell? row col = some (b.cell row col) := by
  unfold cell at h ⊢
  cases hcell : b.cell? row col with
  | none => exact absurd (congrArg (·.getD 0) hcell) h
  | some digit => rfl

theorem cell_of_getElem? (h : b.rows[row]? = some cells) : b.cell row col = cells[col]?.getD 0 := by
  rw [cell, cell?, h, Option.getD_some]

theorem IsSquare.cell?_eq (h : b.IsSquare n) (hrow : row < n) (hcol : col < n) :
    b.cell? row col = some (b.cell row col) := by
  have hrow' : row < b.rows.length := h.length_rows.symm ▸ hrow
  have hcol' : col < b.rows[row].length :=
    (h.length_row _ (List.getElem_mem hrow')).symm ▸ hcol
  have hcell : b.cell? row col = some b.rows[row][col] :=
    cell?_eq_some_iff.2 ⟨_, List.getElem?_eq_getElem hrow', List.getElem?_eq_getElem hcol'⟩
  rw [cell, hcell, Option.getD_some]

theorem IsSquare.lt_of_cell? (h : b.IsSquare n) (hcell : b.cell? row col = some digit) :
    row < n ∧ col < n := by
  obtain ⟨cells, hcells, hdigit⟩ := cell?_eq_some_iff.1 hcell
  have hlength := h.length_row cells (List.mem_of_getElem? hcells)
  obtain ⟨hrow, -⟩ := List.getElem?_eq_some_iff.1 hcells
  obtain ⟨hcol, -⟩ := List.getElem?_eq_some_iff.1 hdigit
  exact ⟨h.length_rows ▸ hrow, hlength ▸ hcol⟩

theorem map_cell_range (h : b.rows[row]? = some cells) (hlength : cells.length = n) :
    (List.range n).map (b.cell row) = cells := by
  apply List.ext_getElem
  · rw [List.length_map, List.length_range, hlength]
  · intro col _ hcol
    rw [List.getElem_map, List.getElem_range, cell_of_getElem? h, List.getElem?_eq_getElem hcol,
      Option.getD_some]

theorem length_column (b : Board) (n col : Nat) : (b.column n col).length = n := by simp [column]

theorem length_box (b : Board) (side index : Nat) : (b.box side index).length = side * side := by
  simp [box, List.length_flatMap]

theorem cell_mem_column (hrow : row < n) : b.cell row col ∈ b.column n col :=
  List.mem_map.2 ⟨row, List.mem_range.2 hrow, rfl⟩

theorem cell_mem_box (hside : 0 < side) (hcol : col / side < side) :
    b.cell row col ∈ b.box side (row / side * side + col / side) := by
  have hdiv : (row / side * side + col / side) / side = row / side := by
    rw [Nat.mul_comm, Nat.mul_add_div hside, Nat.div_eq_of_lt hcol, Nat.add_zero]
  have hmod : (row / side * side + col / side) % side = col / side := by
    rw [Nat.mul_comm, Nat.mul_add_mod, Nat.mod_eq_of_lt hcol]
  rw [box, hdiv, hmod, List.mem_flatMap]
  refine ⟨row % side, List.mem_range.2 (Nat.mod_lt row hside), List.mem_map.2
    ⟨col % side, List.mem_range.2 (Nat.mod_lt col hside), ?_⟩⟩
  rw [Nat.div_add_mod', Nat.div_add_mod']

namespace IsSolved

variable (h : grid.IsSolved size)
include h

theorem exists_cell (house : House) {index : Nat} (hindex : index < size.toNat) (hone : 1 ≤ digit)
    (hle : digit ≤ size.toNat) : ∃ row col, row < size.toNat ∧ col < size.toNat ∧
      house.index size row col = index ∧ grid.cell row col = digit := by
  obtain ⟨⟨row, col⟩, ⟨hrow, hcol, hhouse, hcell⟩, -⟩ := h.once house index hindex digit hone hle
  exact ⟨row, col, hrow, hcol, hhouse, hcell⟩

theorem isComplete_row (hcells : grid.rows[row]? = some cells) :
    isComplete size.toNat cells = true := by
  obtain ⟨hlt, rfl⟩ := List.getElem?_eq_some_iff.1 hcells
  have hlength := h.length_row _ (List.getElem_mem hlt)
  apply isComplete_of_forall_mem hlength
  intro digit hone hle
  obtain ⟨_, col, -, hcol, rfl, rfl⟩ := h.exists_cell .row (h.length_rows ▸ hlt) hone hle
  rw [← map_cell_range hcells hlength]
  exact List.mem_map.2 ⟨col, List.mem_range.2 hcol, rfl⟩

theorem isComplete_column (hcol : col < size.toNat) :
    isComplete size.toNat (grid.column size.toNat col) = true := by
  apply isComplete_of_forall_mem (length_column grid size.toNat col)
  intro digit hone hle
  obtain ⟨row, _, hrow, -, rfl, rfl⟩ := h.exists_cell .column hcol hone hle
  exact cell_mem_column hrow

theorem isComplete_box {index : Nat} (hindex : index < size.toNat) :
    isComplete size.toNat (grid.box size.boxSide index) = true := by
  apply isComplete_of_forall_mem
  · rw [length_box, size.boxSide_mul_boxSide]
  · intro digit hone hle
    obtain ⟨row, col, -, hcol, rfl, rfl⟩ := h.exists_cell .box hindex hone hle
    exact cell_mem_box size.boxSide_pos (Size.div_boxSide_lt hcol)

theorem isCompleteAndValid : grid.isCompleteAndValid = true := by
  have hsize : Size.ofNat? grid.length = some size := by
    rw [length, h.length_rows, size.ofNat?_toNat]
  simp only [Board.isCompleteAndValid, hsize, Bool.and_eq_true, List.all_eq_true, beq_iff_eq,
    List.mem_range]
  refine ⟨⟨fun cells hcells => ⟨h.length_row cells hcells, ?_⟩, fun col hcol => ?_⟩,
    fun index hindex => ?_⟩
  · obtain ⟨row, hrow⟩ := List.mem_iff_getElem?.1 hcells
    exact h.isComplete_row hrow
  · exact h.isComplete_column hcol
  · exact h.isComplete_box hindex

theorem cell_range (hrow : row < size.toNat) (hcol : col < size.toNat) :
    1 ≤ grid.cell row col ∧ grid.cell row col ≤ size.toNat :=
  range_of_isComplete (h.isComplete_column hcol) (cell_mem_column hrow)

end IsSolved

end Board

end ExactCover.Sudoku
