import Mathlib.Data.List.Nodup
import Mathlib.Data.Nat.Sqrt
import ExactCover.Proofs.Attempt
import ExactCover.Proofs.Sudoku.Constraint
import ExactCover.Proofs.Sudoku.Puzzle
/-!
The test for full boards, house by house. As many cells as there are digits hold each of them once
when they hold nothing else and nothing twice, so the test says of every grid whether it is filled
without a conflict; and it never looks outside of the grid, because it looks at the lengths first.
-/

namespace ExactCover.Sudoku

theorem Size.sqrt_toNat (size : Size) : size.toNat.sqrt = size.boxSide := by
  rw [← size.boxSide_mul_boxSide, Nat.sqrt_eq]

namespace House

def places (size : Size) (index : Nat) : House → List (Nat × Nat)
  | .row => (List.range size.toNat).map fun col => (index, col)
  | .column => Board.columnPlaces size.toNat index
  | .box => Board.boxPlaces size.boxSide index

variable {size : Size} {index row col : Nat}

theorem mem_boxPlaces {side : Nat} (hside : 0 < side) : (row, col) ∈ Board.boxPlaces side index ↔
    row / side = index / side ∧ col / side = index % side := by
  simp only [Board.boxPlaces, List.mem_flatMap, List.mem_map, List.mem_range, Prod.mk.injEq]
  constructor
  · rintro ⟨r, hr, c, hc, rfl, rfl⟩
    rw [Nat.mul_comm, Nat.mul_add_div hside, Nat.div_eq_of_lt hr, Nat.mul_comm,
      Nat.mul_add_div hside, Nat.div_eq_of_lt hc]
    exact ⟨rfl, rfl⟩
  · rintro ⟨hrow, hcol⟩
    refine ⟨row % side, Nat.mod_lt row hside, col % side, Nat.mod_lt col hside, ?_, ?_⟩
    · rw [← hrow, Nat.div_add_mod']
    · rw [← hcol, Nat.div_add_mod']

theorem mem_places (house : House) (hindex : index < size.toNat) :
    (row, col) ∈ house.places size index ↔
      row < size.toNat ∧ col < size.toNat ∧ house.index size row col = index := by
  cases house with
  | row =>
    simp only [places, House.index, List.mem_map, List.mem_range, Prod.mk.injEq]
    constructor
    · rintro ⟨c, hc, rfl, rfl⟩
      exact ⟨hindex, hc, rfl⟩
    · rintro ⟨-, hcol, rfl⟩
      exact ⟨col, hcol, rfl, rfl⟩
  | column =>
    simp only [places, Board.columnPlaces, House.index, List.mem_map, List.mem_range, Prod.mk.injEq]
    constructor
    · rintro ⟨r, hr, rfl, rfl⟩
      exact ⟨hr, hindex, rfl⟩
    · rintro ⟨hrow, -, rfl⟩
      exact ⟨row, hrow, rfl, rfl⟩
  | box =>
    have hside := size.boxSide_pos
    rw [places, mem_boxPlaces hside, House.index]
    constructor
    · rintro ⟨hrow, hcol⟩
      have hcol' : col / size.boxSide < size.boxSide := hcol ▸ Nat.mod_lt index hside
      have hrow' : row / size.boxSide < size.boxSide := hrow ▸ Size.div_boxSide_lt hindex
      refine ⟨?_, ?_, ?_⟩
      · rw [← size.boxSide_mul_boxSide]
        exact (Nat.div_lt_iff_lt_mul hside).1 hrow'
      · rw [← size.boxSide_mul_boxSide]
        exact (Nat.div_lt_iff_lt_mul hside).1 hcol'
      · rw [hrow, hcol, Nat.div_add_mod']
    · rintro ⟨-, hcol, rfl⟩
      have hcol' := Size.div_boxSide_lt hcol
      rw [Nat.mul_comm, Nat.mul_add_div hside, Nat.div_eq_of_lt hcol', Nat.mul_add_mod,
        Nat.mod_eq_of_lt hcol']
      exact ⟨rfl, rfl⟩

theorem nodup_places (house : House) (size : Size) (index : Nat) :
    (house.places size index).Nodup := by
  cases house with
  | row => exact List.nodup_range.map fun _ _ heq => (Prod.mk.inj heq).2
  | column => exact List.nodup_range.map fun _ _ heq => (Prod.mk.inj heq).1
  | box =>
    refine List.nodup_flatMap.2 ⟨fun row _ => ?_, List.nodup_range.imp ?_⟩
    · exact List.nodup_range.map fun _ _ heq => Nat.add_left_cancel (Prod.mk.inj heq).2
    · intro row other hne place hplace hother
      obtain ⟨col, -, rfl⟩ := List.mem_map.1 hplace
      obtain ⟨col', -, heq⟩ := List.mem_map.1 hother
      exact hne (Nat.add_left_cancel (Prod.mk.inj heq).1).symm

theorem length_places (house : House) (size : Size) (index : Nat) :
    (house.places size index).length = size.toNat := by
  cases house with
  | row => simp [places]
  | column => simp [places, Board.columnPlaces]
  | box => simp [places, Board.boxPlaces, List.length_flatMap, size.boxSide_mul_boxSide]

end House

namespace Board

variable {b : Board} {size : Size} {n index row col digit : Nat} {cells : List Nat}
  {places : List (Nat × Nat)}

/-- As many cells as digits are complete when they hold digits only and none of them twice. -/
theorem isComplete_iff_nodup (hlength : cells.length = n) :
    isComplete n cells = true ↔ cells.Nodup ∧ ∀ digit ∈ cells, 1 ≤ digit ∧ digit ≤ n := by
  have hdigits : ((List.range n).map (· + 1)).Nodup :=
    List.nodup_range.map fun _ _ heq => Nat.succ.inj heq
  rw [isComplete_iff]
  constructor
  · intro h
    exact ⟨h.nodup_iff.2 hdigits, fun digit hmem => mem_digits.1 (h.mem_iff.1 hmem)⟩
  · rintro ⟨hnodup, hrange⟩
    have hsub : cells ⊆ (List.range n).map (· + 1) := fun digit hmem =>
      mem_digits.2 (hrange digit hmem)
    exact (hnodup.subperm hsub).perm_of_length_le (by simp [hlength])

/-- The numbers at the listed places. -/
def read (b : Board) (places : List (Nat × Nat)) : List Nat :=
  places.map fun place => b.cell place.1 place.2

theorem read_column : b.read (columnPlaces n col) = b.column n col := by
  rw [read, columnPlaces, List.map_map]
  rfl

theorem read_box {side : Nat} : b.read (boxPlaces side index) = b.box side index := by
  rw [read, boxPlaces, List.map_flatMap]
  simp only [List.map_map]
  rfl

theorem IsSquare.read_row (h : b.IsSquare size.toNat) (hcells : b.rows[row]? = some cells) :
    b.read (House.row.places size row) = cells := by
  rw [read, House.places, List.map_map]
  exact map_cell_range hcells (h.length_row cells (List.mem_of_getElem? hcells))

theorem IsSquare.isCompleteAndValid_iff (h : b.IsSquare size.toNat) : b.isCompleteAndValid = true ↔
    ∀ (house : House), ∀ index < size.toNat,
      isComplete size.toNat (b.read (house.places size index)) = true := by
  have hsize : Size.ofNat? b.length = some size := by
    rw [length, h.length_rows, size.ofNat?_toNat]
  simp only [isCompleteAndValid, hsize, Bool.and_eq_true, List.all_eq_true, beq_iff_eq,
    List.mem_range]
  constructor
  · rintro ⟨⟨hrows, hcolumns⟩, hboxes⟩ house index hindex
    cases house with
    | row =>
      have hcells := List.getElem?_eq_getElem (h.length_rows.symm ▸ hindex)
      rw [h.read_row hcells]
      exact (hrows _ (List.mem_of_getElem? hcells)).2
    | column => exact read_column ▸ hcolumns index hindex
    | box => exact read_box ▸ hboxes index hindex
  · intro hhouses
    refine ⟨⟨fun cells hcells => ⟨h.length_row cells hcells, ?_⟩, fun col hcol => ?_⟩,
      fun index hindex => ?_⟩
    · obtain ⟨row, hrow⟩ := List.mem_iff_getElem?.1 hcells
      have hlt : row < size.toNat := h.length_rows ▸ (List.getElem?_eq_some_iff.1 hrow).1
      exact h.read_row hrow ▸ hhouses .row row hlt
    · exact read_column (b := b) ▸ hhouses .column col hcol
    · exact read_box (b := b) ▸ hhouses .box index hindex

theorem isSquare_of_rows (hsize : Size.ofNat? b.length = some size)
    (hrows : (b.rows.all fun row => row.length == size.toNat && isComplete size.toNat row) = true) :
    b.IsSquare size.toNat := by
  refine ⟨(Size.ofNat?_eq_some_iff.1 hsize).symm, fun cells hcells => ?_⟩
  have hcells := List.all_eq_true.1 hrows cells hcells
  exact beq_iff_eq.1 (Bool.and_eq_true_iff.1 hcells).1

/-- A board that passes the test is a square of a sudoku's size. -/
theorem exists_isSquare_of_isCompleteAndValid (h : b.isCompleteAndValid = true) :
    ∃ size : Size, b.IsSquare size.toNat := by
  rw [isCompleteAndValid] at h
  cases hsize : Size.ofNat? b.length with
  | none => simp [hsize] at h
  | some size =>
    simp only [hsize, Bool.and_eq_true_iff] at h
    exact ⟨size, isSquare_of_rows hsize h.1.1⟩

/-- Two places in the same row, in the same column, or in the same box of the given side. -/
def Sees (side : Nat) (place other : Nat × Nat) : Prop :=
  place.1 = other.1 ∨ place.2 = other.2 ∨
    (place.1 / side = other.1 / side ∧ place.2 / side = other.2 / side)

theorem sees_iff {row' col' : Nat} (hcol : col < size.toNat) (hcol' : col' < size.toNat) :
    Sees size.boxSide (row, col) (row', col') ↔
      ∃ house : House, house.index size row col = house.index size row' col' := by
  constructor
  · rintro (hrow | hcol | ⟨hrow, hcol⟩)
    · exact ⟨.row, hrow⟩
    · exact ⟨.column, hcol⟩
    · exact ⟨.box, by simp only [House.index, hrow, hcol]⟩
  · rintro ⟨house, hindex⟩
    cases house with
    | row => exact .inl hindex
    | column => exact .inr (.inl hindex)
    | box =>
      exact .inr (.inr (mul_add_inj (Size.div_boxSide_lt hcol) (Size.div_boxSide_lt hcol') hindex))

/-- The houses of a square board are complete when it holds digits only, and different ones in any
two places that see each other. -/
theorem IsSquare.isCompleteAndValid_iff_sees (h : b.IsSquare size.toNat) :
    b.isCompleteAndValid = true ↔
      (∀ row col digit, b.cell? row col = some digit → 1 ≤ digit ∧ digit ≤ size.toNat) ∧
      ∀ row col row' col' digit, b.cell? row col = some digit → b.cell? row' col' = some digit →
        Sees size.boxSide (row, col) (row', col') → row = row' ∧ col = col' := by
  have hlength (house : House) (index : Nat) :
      (b.read (house.places size index)).length = size.toNat := by
    rw [read, List.length_map, house.length_places]
  have hinj (house : House) (index : Nat) := List.nodup_map_iff_inj_on
    (f := fun place : Nat × Nat => b.cell place.1 place.2) (house.nodup_places size index)
  simp only [h.isCompleteAndValid_iff, isComplete_iff_nodup (hlength _ _)]
  constructor
  · intro hhouses
    refine ⟨fun row col digit hcell => ?_, fun row col row' col' digit hcell hcell' hsees => ?_⟩
    · obtain ⟨hrow, hcol⟩ := h.lt_of_cell? hcell
      have hmem : (row, col) ∈ House.row.places size row :=
        (House.row.mem_places hrow).2 ⟨hrow, hcol, rfl⟩
      have hdigit : b.cell row col = digit := by rw [cell, hcell, Option.getD_some]
      exact hdigit ▸ (hhouses .row row hrow).2 _ (List.mem_map_of_mem hmem)
    · obtain ⟨hrow, hcol⟩ := h.lt_of_cell? hcell
      obtain ⟨hrow', hcol'⟩ := h.lt_of_cell? hcell'
      obtain ⟨house, hindex⟩ := (sees_iff hcol hcol').1 hsees
      have hlt := house.index_lt hrow hcol
      have hmem := (house.mem_places hlt).2 ⟨hrow, hcol, rfl⟩
      have hmem' := (house.mem_places hlt).2 ⟨hrow', hcol', hindex.symm⟩
      have hsame : b.cell row col = b.cell row' col' := by rw [cell, cell, hcell, hcell']
      have hplace := (hinj house _).1 (hhouses house _ hlt).1 _ hmem _ hmem' hsame
      exact Prod.mk.inj hplace
  · rintro ⟨hrange, hdistinct⟩ house index hindex
    refine ⟨(hinj house index).2 ?_, ?_⟩
    · rintro ⟨row, col⟩ hmem ⟨row', col'⟩ hmem' hsame
      obtain ⟨hrow, hcol, hplace⟩ := (house.mem_places hindex).1 hmem
      obtain ⟨hrow', hcol', hplace'⟩ := (house.mem_places hindex).1 hmem'
      have hsees := (sees_iff hcol hcol').2 ⟨house, hplace.trans hplace'.symm⟩
      have hcell' : b.cell? row' col' = some (b.cell row col) :=
        hsame ▸ h.cell?_eq hrow' hcol'
      exact Prod.ext_iff.2 (hdistinct row col row' col' _ (h.cell?_eq hrow hcol) hcell' hsees)
    · intro digit hdigit
      obtain ⟨⟨row, col⟩, hmem, rfl⟩ := List.mem_map.1 hdigit
      obtain ⟨hrow, hcol, -⟩ := (house.mem_places hindex).1 hmem
      exact hrange row col _ (h.cell?_eq hrow hcol)

/-- Inside a square board every place of a house can be looked up. -/
theorem IsSquare.isCompleteAt?_places (h : b.IsSquare size.toNat) (house : House)
    (hindex : index < size.toNat) : b.isCompleteAt? size.toNat (house.places size index) =
      some (isComplete size.toNat (b.read (house.places size index))) := by
  have hcells : ((house.places size index).mapM fun place => b.cell? place.1 place.2) =
      some (b.read (house.places size index)) := by
    refine mapM_eq_some fun place hplace => ?_
    obtain ⟨hrow, hcol, -⟩ := (house.mem_places hindex).1 hplace
    exact h.cell?_eq hrow hcol
  rw [isCompleteAt?, hcells]
  rfl

theorem IsSquare.allM_isCompleteAt? (h : b.IsSquare size.toNat) (house : House) :
    ((List.range size.toNat).allM fun index =>
        b.isCompleteAt? size.toNat (house.places size index)) =
      some ((List.range size.toNat).all fun index =>
        isComplete size.toNat (b.read (house.places size index))) :=
  allM_eq_some fun _ hindex => h.isCompleteAt?_places house (List.mem_range.1 hindex)

theorem allM_rows_eq (hlength : b.rows.length = n) (test : List Nat → Bool) :
    ((List.range n).allM fun row => do
      let cells ← b.rows[row]?
      return test cells) = some (b.rows.all test) := by
  subst hlength
  have hlookup : ∀ row ∈ List.range b.rows.length,
      (do let cells ← b.rows[row]?; return test cells) = some (test (b.rows[row]?.getD [])) := by
    intro row hrow
    rw [List.getElem?_eq_getElem (List.mem_range.1 hrow)]
    rfl
  rw [allM_eq_some hlookup, Option.some_inj, Bool.eq_iff_iff, List.all_eq_true, List.all_eq_true]
  constructor
  · intro h cells hcells
    obtain ⟨row, hrow⟩ := List.mem_iff_getElem?.1 hcells
    have hlt := (List.getElem?_eq_some_iff.1 hrow).1
    simpa [hrow] using h row (List.mem_range.2 hlt)
  · intro h row hrow
    rw [List.getElem?_eq_getElem (List.mem_range.1 hrow)]
    exact h _ (List.getElem_mem _)

/-- The test never looks outside of the grid. -/
theorem isCompleteAndValid?_eq (b : Board) : b.isCompleteAndValid? = some b.isCompleteAndValid := by
  rw [isCompleteAndValid?, isCompleteAndValid]
  cases hsize : Size.ofNat? b.length with
  | none => rfl
  | some size =>
    have hlength : b.rows.length = size.toNat := (Size.ofNat?_eq_some_iff.1 hsize).symm
    simp only [allM_rows_eq hlength]
    cases hrows : b.rows.all fun row => row.length == size.toNat && isComplete size.toNat row with
    | false => rfl
    | true =>
      have hsquare := isSquare_of_rows hsize hrows
      have hcolumns := hsquare.allM_isCompleteAt? .column
      have hboxes := hsquare.allM_isCompleteAt? .box
      simp only [House.places, read_column, read_box] at hcolumns hboxes
      rw [hcolumns, hboxes]
      cases (List.range size.toNat).all fun col =>
        isComplete size.toNat (b.column size.toNat col) with
      | true => rfl
      | false => rfl

/-- The test looks at no row and no cell that is not there, whatever the shape of the grid, and it
accepts exactly the squares of a sudoku's size that hold nothing but digits, and different ones in
any two places of the same row, column or box. -/
theorem isCompleteAndValid_decides (b : Board) :
    b.isCompleteAndValid? = some b.isCompleteAndValid ∧
    (b.isCompleteAndValid = true ↔
      b.length ∈ [4, 9, 16, 25] ∧ (∀ cells ∈ b.rows, cells.length = b.length) ∧
      (∀ row col digit, b.cell? row col = some digit → 1 ≤ digit ∧ digit ≤ b.length) ∧
      ∀ row col row' col' digit, b.cell? row col = some digit → b.cell? row' col' = some digit →
        Sees b.length.sqrt (row, col) (row', col') → row = row' ∧ col = col') := by
  refine ⟨b.isCompleteAndValid?_eq, ?_⟩
  constructor
  · intro hvalid
    obtain ⟨size, hsquare⟩ := exists_isSquare_of_isCompleteAndValid hvalid
    have hlength : b.length = size.toNat := hsquare.length_rows
    rw [hlength, size.sqrt_toNat]
    have hmem : size.toNat ∈ [4, 9, 16, 25] := by cases size <;> decide
    exact ⟨hmem, hsquare.length_row, hsquare.isCompleteAndValid_iff_sees.1 hvalid⟩
  · rintro ⟨hmem, hrows, hconflict⟩
    cases hsize : Size.ofNat? b.length with
    | none => exact absurd hmem (Size.ofNat?_eq_none_iff.1 hsize)
    | some size =>
      have hlength : size.toNat = b.length := Size.ofNat?_eq_some_iff.1 hsize
      have hsquare : b.IsSquare size.toNat := ⟨hlength.symm, hlength ▸ hrows⟩
      rw [← hlength, size.sqrt_toNat] at hconflict
      exact hsquare.isCompleteAndValid_iff_sees.2 hconflict

end Board

end ExactCover.Sudoku
