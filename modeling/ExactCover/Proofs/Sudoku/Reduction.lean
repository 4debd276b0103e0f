import Mathlib.Data.List.ProdSigma
import ExactCover.Matrix.Cover
import ExactCover.Proofs.Matrix.Construct
import ExactCover.Proofs.Sudoku.Constraint
import ExactCover.Proofs.Sudoku.Puzzle
/-!
The exact cover form of a puzzle. Every accepted puzzle has one; its rows are the placements that
the givens leave, each of them once, and a set of rows is an exact cover when it meets every
constraint once.
-/

namespace ExactCover.Sudoku

variable {s : Sudoku} {p : Placement} {n row col given : Nat}

theorem mem_cellPlacements : p ∈ cellPlacements n row col given ↔
    p.row = row ∧ p.col = col ∧ if given = 0 then 1 ≤ p.digit ∧ p.digit ≤ n else p.digit = given := by
  obtain ⟨r, c, digit⟩ := p
  unfold cellPlacements
  split
  case isTrue =>
    simp only [List.mem_map, Placement.mk.injEq, List.mem_range]
    constructor
    · rintro ⟨d, hd, rfl, rfl, rfl⟩
      exact ⟨rfl, rfl, by omega⟩
    · rintro ⟨rfl, rfl, hone, hle⟩
      exact ⟨digit - 1, by omega, rfl, rfl, by omega⟩
  case isFalse => simp

theorem nodup_cellPlacements (n row col given : Nat) : (cellPlacements n row col given).Nodup := by
  unfold cellPlacements
  split
  case isTrue =>
    apply List.nodup_range.map
    intro d d' heq
    simpa using heq
  case isFalse => exact List.nodup_singleton _

theorem mem_positions {cell : Nat × Nat} : cell ∈ positions n ↔ cell.1 < n ∧ cell.2 < n := by
  obtain ⟨row, col⟩ := cell
  simp [positions]

theorem nodup_positions (n : Nat) : (positions n).Nodup :=
  (List.nodup_range (n := n)).product List.nodup_range

/-- The placements that the givens leave, cell by cell. -/
def allowed (s : Sudoku) : List Placement :=
  (positions s.size.toNat).flatMap fun cell =>
    cellPlacements s.size.toNat cell.1 cell.2 (s.board.cell cell.1 cell.2)

theorem nodup_allowed (s : Sudoku) : s.allowed.Nodup := by
  apply List.nodup_flatMap.2
  refine ⟨fun cell _ => nodup_cellPlacements _ _ _ _, (nodup_positions _).imp ?_⟩
  intro cell other hne p hp hp'
  obtain ⟨hrow, hcol, -⟩ := mem_cellPlacements.1 hp
  obtain ⟨hrow', hcol', -⟩ := mem_cellPlacements.1 hp'
  exact hne (Prod.ext (hrow.symm.trans hrow') (hcol.symm.trans hcol'))

namespace Checked

variable (h : s.Checked)
include h

/-- What a given cell rules out is every other digit. -/
theorem mem_allowed : p ∈ s.allowed ↔ p.Fits s.size ∧
    (s.board.cell p.row p.col ≠ 0 → p.digit = s.board.cell p.row p.col) := by
  have hle := h.cell_le p.row p.col
  simp only [allowed, List.mem_flatMap, mem_positions, mem_cellPlacements, Prod.exists]
  constructor
  · rintro ⟨row, col, ⟨hrow, hcol⟩, rfl, rfl, hdigit⟩
    split at hdigit
    case isTrue hempty =>
      exact ⟨⟨hrow, hcol, hdigit.1, hdigit.2⟩, fun hgiven => absurd hempty hgiven⟩
    case isFalse hgiven =>
      exact ⟨⟨hrow, hcol, by omega, by omega⟩, fun _ => hdigit⟩
  · rintro ⟨hp, hgiven⟩
    refine ⟨p.row, p.col, ⟨hp.row_lt, hp.col_lt⟩, rfl, rfl, ?_⟩
    split
    case isTrue => exact ⟨hp.one_le, hp.digit_le⟩
    case isFalse hne => exact hgiven hne

theorem placements_eq : s.placements = .ok s.allowed := by
  unfold placements
  rw [mapM_eq_ok (g := fun cell => cellPlacements s.size.toNat cell.1 cell.2
    (s.board.cell cell.1 cell.2))]
  · rfl
  · rintro ⟨row, col⟩ hcell
    obtain ⟨hrow, hcol⟩ := mem_positions.1 hcell
    have hgiven : s.board.cell? row col = some (s.board.cell row col) := h.cell?_eq hrow hcol
    simp only [hgiven]

theorem allowed_ne_nil : s.allowed ≠ [] := by
  have hn := s.size.toNat_pos
  have hle := h.cell_le 0 0
  by_cases hempty : s.board.cell 0 0 = 0
  · have hmem : { row := 0, col := 0, digit := 1 } ∈ s.allowed :=
      h.mem_allowed.2 ⟨⟨hn, hn, Nat.le_refl 1, hn⟩, fun hgiven => absurd hempty hgiven⟩
    exact List.ne_nil_of_mem hmem
  · have hmem : { row := 0, col := 0, digit := s.board.cell 0 0 } ∈ s.allowed :=
      h.mem_allowed.2 ⟨⟨hn, hn, Nat.pos_of_ne_zero hempty, hle⟩, fun _ => rfl⟩
    exact List.ne_nil_of_mem hmem

end Checked

namespace Placement.Fits

variable {size : Size} (h : p.Fits size)
include h

theorem columns_lt {column : Nat} (hcolumn : column ∈ p.columns size) :
    column < 4 * size.toNat * size.toNat := by
  rw [p.columns_eq] at hcolumn
  obtain ⟨k, hk, rfl⟩ := List.mem_map.1 hcolumn
  exact Constraint.column_lt (h.constraint hk)

/-- The columns of the largest puzzle are far from the end of the words. -/
theorem columns?_eq : p.columns? size = some (p.columns size) := by
  have hword : 4 * size.toNat * size.toNat ≤ wordMax := by cases size <;> decide
  have hdigit : p.digit ≠ 0 := Nat.ne_of_gt h.one_le
  have hfit : (p.columns size).any (wordMax < ·) = false := by
    rw [List.any_eq_false]
    intro column hcolumn
    have := h.columns_lt hcolumn
    simp only [decide_eq_true_eq]
    omega
  rw [columns?, hfit]
  simp [hdigit]

theorem rangedColumns_eq (row : Nat) :
    rangedColumns size (4 * size.toNat * size.toNat) row p = .ok (p.columns size) := by
  have hrange : (p.columns size).find?
      (fun column => decide (4 * size.toNat * size.toNat ≤ column)) = none := by
    rw [List.find?_eq_none]
    intro column hcolumn
    simpa using h.columns_lt hcolumn
  unfold rangedColumns
  rw [h.columns?_eq]
  simp only [hrange]

end Placement.Fits

/-- The exact cover form of a puzzle: a row for each placement that the givens leave, set in the
columns of that placement. -/
structure Reduces (s : Sudoku) (c : Cover) : Prop where
  size_eq : c.size = s.size
  placements_eq : c.placements = s.allowed
  numColumns_eq : c.matrix.numColumns = 4 * s.size.toNat * s.size.toNat
  rows_eq : c.matrix.rows = s.allowed.map fun p => ascend (p.columns s.size)

theorem Checked.toExactCover_eq (h : s.Checked) : ∃ c, s.toExactCover = .ok c ∧ s.Reduces c := by
  have hn := s.size.toNat_pos
  have hfits : ∀ p ∈ s.allowed, p.Fits s.size := fun p hp => (h.mem_allowed.1 hp).1
  have hne : (s.allowed.map fun p => p.columns s.size) ≠ [] := by
    simpa using h.allowed_ne_nil
  have hlt : ∀ row ∈ s.allowed.map fun p => p.columns s.size, ∀ column ∈ row,
      column < 4 * s.size.toNat * s.size.toNat := by
    intro row hrow
    obtain ⟨p, hp, rfl⟩ := List.mem_map.1 hrow
    exact fun column hcolumn => (hfits p hp).columns_lt hcolumn
  have hpos : 0 < 4 * s.size.toNat * s.size.toNat := Nat.mul_pos (Nat.mul_pos (by decide) hn) hn
  obtain ⟨matrix, hmatrix, hcolumns, heq⟩ := Matrix.ofSparse_eq_ok hpos hne hlt
  rw [List.map_map] at heq
  refine ⟨{ matrix, placements := s.allowed, size := s.size }, ?_, rfl, rfl, hcolumns, heq⟩
  unfold toExactCover
  simp only [h.placements_eq, ok_bind]
  rw [mapM_eq_ok (g := fun entry => entry.1.columns s.size)]
  · have hrows : (s.allowed.zipIdx.map fun entry => entry.1.columns s.size) =
        s.allowed.map fun p => p.columns s.size := by
      conv_rhs => rw [← List.zipIdx_map_fst 0 s.allowed, List.map_map]
      rfl
    rw [ok_bind, hrows, hmatrix]
    rfl
  · rintro ⟨p, row⟩ hmem
    exact (hfits p (List.mem_of_getElem? (List.mem_zipIdx_iff_getElem?.1 hmem))).rangedColumns_eq row

namespace Reduces

variable {c : Cover} {column : Nat} {rows : List Nat}

theorem numRows_eq (h : s.Reduces c) : c.matrix.numRows = c.placements.length := by
  rw [Matrix.numRows, h.rows_eq, h.placements_eq, List.length_map]

theorem placement_of_lt (h : s.Reduces c) (hrow : row < c.matrix.numRows) :
    ∃ p, c.placement? row = some p :=
  ⟨_, List.getElem?_eq_getElem (h.numRows_eq ▸ hrow)⟩

theorem lt_of_placement (h : s.Reduces c) (hp : c.placement? row = some p) :
    row < c.matrix.numRows := by
  rw [h.numRows_eq]
  exact (List.getElem?_eq_some_iff.1 hp).1

theorem mem_allowed_of_placement (h : s.Reduces c) (hp : c.placement? row = some p) :
    p ∈ s.allowed := h.placements_eq ▸ List.mem_of_getElem? hp

theorem placement_inj (h : s.Reduces c) {other : Nat} (hp : c.placement? row = some p)
    (hother : c.placement? other = some p) : other = row := by
  have hnodup : c.placements.Nodup := h.placements_eq ▸ s.nodup_allowed
  exact (List.getElem?_inj (h.numRows_eq ▸ h.lt_of_placement hother) hnodup).1 (hother.trans hp.symm)

theorem ones?_eq (h : s.Reduces c) (hp : c.placement? row = some p) :
    c.matrix.ones? row = some (ascend (p.columns s.size)) := by
  have hplacement : s.allowed[row]? = some p := h.placements_eq ▸ hp
  rw [Matrix.ones?, h.rows_eq, List.getElem?_map, hplacement, Option.map_some]

theorem isSet_iff (h : s.Reduces c) (hp : c.placement? row = some p) :
    c.matrix.isSet row column = true ↔ column ∈ p.columns s.size := by
  rw [Matrix.isSet_iff, h.ones?_eq hp, Option.getD_some, mem_ascend]

variable (h : s.Reduces c) (hs : s.Checked)
include h hs

theorem fits_of_placement (hp : c.placement? row = some p) : p.Fits s.size :=
  (hs.mem_allowed.1 (h.mem_allowed_of_placement hp)).1

theorem isSet_column_iff {k : Constraint} (hk : k.Fits s.size) (hp : c.placement? row = some p) :
    c.matrix.isSet row (k.column s.size) = true ↔ k ∈ p.constraints s.size := by
  rw [h.isSet_iff hp]
  exact Constraint.column_mem_columns (h.fits_of_placement hs hp) hk

/-- A set of rows is an exact cover when its placements meet every constraint once. -/
theorem isExactCover_iff : c.matrix.IsExactCover rows ↔
    rows.Nodup ∧ (∀ row ∈ rows, row < c.matrix.numRows) ∧ ∀ k : Constraint, k.Fits s.size →
      ∃! p, p ∈ rows.filterMap c.placement? ∧ k ∈ p.constraints s.size := by
  simp only [List.mem_filterMap]
  constructor
  · intro hcover
    refine ⟨hcover.nodup, hcover.lt_numRows, fun k hk => ?_⟩
    obtain ⟨row, hrow, hset, hunique⟩ :=
      hcover.exists_unique (k.column s.size) (h.numColumns_eq ▸ Constraint.column_lt hk)
    obtain ⟨p, hp⟩ := h.placement_of_lt (hcover.lt_numRows row hrow)
    refine ⟨p, ⟨⟨row, hrow, hp⟩, (h.isSet_column_iff hs hk hp).1 hset⟩, ?_⟩
    rintro p' ⟨⟨row', hrow', hp'⟩, hmeets⟩
    obtain rfl := hunique row' hrow' ((h.isSet_column_iff hs hk hp').2 hmeets)
    exact Option.some.inj (hp'.symm.trans hp)
  · rintro ⟨hnodup, hlt, honce⟩
    refine ⟨hnodup, hlt, fun column hcolumn => ?_⟩
    obtain ⟨k, hk, rfl⟩ := Constraint.exists_of_lt (h.numColumns_eq ▸ hcolumn)
    obtain ⟨p, ⟨⟨row, hrow, hp⟩, hmeets⟩, hunique⟩ := honce k hk
    refine ⟨row, hrow, (h.isSet_column_iff hs hk hp).2 hmeets, fun other hother hset => ?_⟩
    obtain ⟨p', hp'⟩ := h.placement_of_lt (hlt other hother)
    obtain rfl := hunique p' ⟨⟨other, hother, hp'⟩, (h.isSet_column_iff hs hk hp').1 hset⟩
    exact h.placement_inj hp hp'

end Reduces

end ExactCover.Sudoku
