import ExactCover.Proofs.Sudoku.Correct
/-!
The exact covers of a puzzle's form against its completions, one for one. A set of rows fills in one
board, in whatever order it is listed; the board tells the rows, and every completion is filled in by
the rows whose digit it shows.
-/

namespace ExactCover.Sudoku

variable {s : Sudoku} {c : Cover} {p : Placement} {size : Size} {grid other : Board} {n row : Nat}
  {rows others : List Nat}

namespace Board

theorem IsSquare.rows_eq (h : grid.IsSquare n) :
    grid.rows = (List.range n).map fun row => (List.range n).map (grid.cell row) := by
  apply List.ext_getElem
  · rw [h.length_rows, List.length_map, List.length_range]
  · intro row hrow _
    rw [List.getElem_map, List.getElem_range]
    exact (map_cell_range (List.getElem?_eq_getElem hrow)
      (h.length_row _ (List.getElem_mem hrow))).symm

theorem IsSquare.map_cell_positions (h : grid.IsSquare n) :
    ((positions n).map fun cell => grid.cell cell.1 cell.2) = grid.rows.flatten := by
  rw [h.rows_eq, positions, List.map_flatMap, List.flatMap_def]
  simp only [List.map_map]
  rfl

/-- A square board is known from the placements that it shows. -/
theorem Shows.eq_of_mem_iff {ps qs : List Placement} (h : grid.Shows size ps)
    (h' : other.Shows size qs) (hsquare : grid.IsSquare size.toNat)
    (hsquare' : other.IsSquare size.toNat) (hmem : ∀ p, p ∈ ps ↔ p ∈ qs) : grid = other := by
  have hcell : ∀ row < size.toNat, ∀ col < size.toNat, grid.cell row col = other.cell row col :=
    fun row hrow col hcol =>
      ((h'.mem_iff hrow hcol).1 ((hmem _).1 ((h.mem_iff hrow hcol).2 rfl))).symm
  have hrows : grid.rows = other.rows := by
    rw [hsquare.rows_eq, hsquare'.rows_eq]
    apply List.map_congr_left
    intro row hrow
    apply List.map_congr_left
    intro col hcol
    exact hcell row (List.mem_range.1 hrow) col (List.mem_range.1 hcol)
  cases grid
  cases other
  exact congrArg Board.mk hrows

end Board

theorem length_cellPlacements (n row col given : Nat) :
    (cellPlacements n row col given).length = if given = 0 then n else 1 := by
  unfold cellPlacements
  split
  case isTrue => rw [List.length_map, List.length_range]
  case isFalse => rfl

/-- A given cell has one placement, an empty one as many as there are digits. -/
theorem length_flatMap_cellPlacements (n : Nat) (value : Nat × Nat → Nat)
    (cells : List (Nat × Nat)) :
    (cells.flatMap fun cell => cellPlacements n cell.1 cell.2 (value cell)).length =
      (cells.map value).countP (· != 0) + n * (cells.map value).count 0 := by
  induction cells with
  | nil => rfl
  | cons cell cells ih =>
    rw [List.flatMap_cons, List.length_append, length_cellPlacements, ih, List.map_cons]
    by_cases hempty : value cell = 0
    · rw [if_pos hempty, hempty, List.countP_cons_of_neg (by simp), List.count_cons_self,
        Nat.mul_succ]
      omega
    · rw [if_neg hempty, List.countP_cons_of_pos (by simpa using hempty),
        List.count_cons_of_ne hempty]
      omega

theorem Checked.length_allowed (h : s.Checked) : s.allowed.length =
    s.board.rows.flatten.countP (· != 0) + s.size.toNat * s.board.rows.flatten.count 0 := by
  rw [allowed, length_flatMap_cellPlacements s.size.toNat fun cell => s.board.cell cell.1 cell.2,
    h.map_cell_positions]

/-- No constraint is met twice by one placement, so its columns are distinct. -/
theorem Placement.Fits.nodup_columns (h : p.Fits size) : (p.columns size).Nodup := by
  have hconstraints : (p.constraints size).Nodup := by simp [Placement.constraints]
  rw [p.columns_eq]
  exact hconstraints.map_on fun k hk k' hk' heq =>
    Constraint.column_inj (h.constraint hk) (h.constraint hk') heq

namespace Reduces

theorem row_mem_rowsOf (h : s.Reduces c) : row ∈ c.rowsOf grid ↔
    ∃ p, c.placement? row = some p ∧ grid.cell p.row p.col = p.digit := by
  rw [Cover.rowsOf, List.mem_filter, List.mem_range]
  constructor
  · rintro ⟨hlt, hany⟩
    obtain ⟨p, hp⟩ := h.placement_of_lt hlt
    exact ⟨p, hp, by simpa [hp] using hany⟩
  · rintro ⟨p, hp, hcell⟩
    exact ⟨h.lt_of_placement hp, by simpa [hp] using hcell⟩

theorem isSquare_decode (h : s.Reduces c) (rows : List Nat) :
    (c.decode ⟨rows⟩).IsSquare s.size.toNat :=
  h.size_eq ▸ Cover.isSquare_decode c ⟨rows⟩

variable (h : s.Reduces c) (hs : s.Checked)
include h hs

theorem exists_ones (hrow : row < c.matrix.numRows) : ∃ p ones, c.placement? row = some p ∧
    c.matrix.ones? row = some ones ∧ ones.Pairwise (· < ·) ∧ ones.length = 4 ∧
    ones.Perm (p.columns s.size) := by
  obtain ⟨p, hp⟩ := h.placement_of_lt hrow
  have hnodup := (h.fits_of_placement hs hp).nodup_columns
  have hperm : (ascend (p.columns s.size)).Perm (p.columns s.size) :=
    (List.perm_ext_iff_of_nodup ((pairwise_ascend _).imp Nat.ne_of_lt) hnodup).2
      fun _ => mem_ascend
  exact ⟨p, _, hp, h.ones?_eq hp, pairwise_ascend _, hperm.length_eq, hperm⟩

/-- The board that an exact cover fills in tells its rows. -/
theorem perm_rowsOf_decode (hcover : c.matrix.IsExactCover rows) :
    rows.Perm (c.rowsOf (c.decode ⟨rows⟩)) := by
  have hshows := h.shows_of_isExactCover hs hcover
  apply (List.perm_ext_iff_of_nodup hcover.nodup (List.nodup_range.filter _)).2
  intro row
  rw [← Cover.rowsOf, h.row_mem_rowsOf]
  constructor
  · intro hrow
    obtain ⟨p, hp⟩ := h.placement_of_lt (hcover.lt_numRows row hrow)
    exact ⟨p, hp, hshows.cell_eq (List.mem_filterMap.2 ⟨row, hrow, hp⟩)⟩
  · rintro ⟨p, hp, hcell⟩
    have hfits := h.fits_of_placement hs hp
    obtain ⟨other, hother, hplacement⟩ :=
      List.mem_filterMap.1 ((hshows.mem_iff hfits.row_lt hfits.col_lt).2 hcell)
    rwa [h.placement_inj hplacement hp]

theorem decode_eq_of_perm (hcover : c.matrix.IsExactCover rows) (hperm : rows.Perm others) :
    c.decode ⟨others⟩ = c.decode ⟨rows⟩ :=
  (h.shows_of_isExactCover hs (hcover.perm hperm)).eq_of_mem_iff (h.shows_of_isExactCover hs hcover)
    (h.isSquare_decode others) (h.isSquare_decode rows)
    fun _ => (hperm.filterMap c.placement?).mem_iff.symm

/-- The rows whose digit a completion shows fill it in. -/
theorem decode_rowsOf (hgrid : s.IsCompletion grid) : c.decode ⟨c.rowsOf grid⟩ = grid :=
  (h.shows_of_isExactCover hs (h.isExactCover_rowsOf hs hgrid)).eq_of_mem_iff
    (h.shows_rowsOf hs hgrid) (h.isSquare_decode _) hgrid.toIsSquare fun _ => Iff.rfl

end Reduces

/-- The exact covers of a puzzle's form, as sets of rows, are its completions: each fills in one of
them, in any order of its rows, no two the same, and each completion is filled in by the rows whose
digit it shows. The form has four times as many columns as cells, a row for each given and as many
as digits for each empty cell, and each row sets the four columns of its placement. -/
theorem decode_bijection {board : Board} {s : Sudoku} (hs : ofBoard board = .ok s) :
    ∃ c, s.toExactCover = .ok c ∧
      c.matrix.numColumns = 4 * s.size.toNat * s.size.toNat ∧
      c.matrix.numRows =
        board.rows.flatten.countP (· != 0) + s.size.toNat * board.rows.flatten.count 0 ∧
      (∀ row < c.matrix.numRows, ∃ p ones, c.placement? row = some p ∧
        c.matrix.ones? row = some ones ∧ ones.Pairwise (· < ·) ∧ ones.length = 4 ∧
        ones.Perm (p.columns s.size)) ∧
      (∀ rows, c.matrix.IsExactCover rows → s.IsCompletion (c.decode ⟨rows⟩) ∧
        ∀ others, rows.Perm others → c.decode ⟨others⟩ = c.decode ⟨rows⟩) ∧
      (∀ rows others, c.matrix.IsExactCover rows → c.matrix.IsExactCover others →
        c.decode ⟨rows⟩ = c.decode ⟨others⟩ → rows.Perm others) ∧
      ∀ grid, s.IsCompletion grid → c.matrix.IsExactCover (c.rowsOf grid) ∧
        c.decode ⟨c.rowsOf grid⟩ = grid ∧
        ∀ row, row ∈ c.rowsOf grid ↔
          ∃ p, c.placement? row = some p ∧ grid.cell p.row p.col = p.digit := by
  obtain ⟨rfl, hchecked⟩ := checked_of_ofBoard hs
  obtain ⟨c, hc, h⟩ := hchecked.toExactCover_eq
  refine ⟨c, hc, h.numColumns_eq, ?_, fun row hrow => h.exists_ones hchecked hrow, ?_, ?_, ?_⟩
  · rw [h.numRows_eq, h.placements_eq, hchecked.length_allowed]
  · exact fun rows hcover => ⟨h.isCompletion_decode hchecked hcover,
      fun others hperm => h.decode_eq_of_perm hchecked hcover hperm⟩
  · intro rows others hcover hcover' heq
    have hperm := h.perm_rowsOf_decode hchecked hcover
    rw [heq] at hperm
    exact hperm.trans (h.perm_rowsOf_decode hchecked hcover').symm
  · exact fun grid hgrid => ⟨h.isExactCover_rowsOf hchecked hgrid, h.decode_rowsOf hchecked hgrid,
      fun row => h.row_mem_rowsOf⟩

/-- Four givens and twelve empty cells: 52 placements. -/
theorem decode_bijection_sampleFour :
    ofBoard sampleFour = .ok { board := sampleFour, size := .four } ∧
    ∃ c, toExactCover { board := sampleFour, size := .four } = .ok c ∧
      c.matrix.numColumns = 64 ∧ c.matrix.numRows = 52 ∧
      (∀ row < c.matrix.numRows, ∃ p ones, c.placement? row = some p ∧
        c.matrix.ones? row = some ones ∧ ones.Pairwise (· < ·) ∧ ones.length = 4 ∧
        ones.Perm (p.columns .four)) ∧
      (∀ rows, c.matrix.IsExactCover rows →
        IsCompletion { board := sampleFour, size := .four } (c.decode ⟨rows⟩) ∧
        ∀ others, rows.Perm others → c.decode ⟨others⟩ = c.decode ⟨rows⟩) ∧
      (∀ rows others, c.matrix.IsExactCover rows → c.matrix.IsExactCover others →
        c.decode ⟨rows⟩ = c.decode ⟨others⟩ → rows.Perm others) ∧
      ∀ grid, IsCompletion { board := sampleFour, size := .four } grid →
        c.matrix.IsExactCover (c.rowsOf grid) ∧ c.decode ⟨c.rowsOf grid⟩ = grid ∧
        ∀ row, row ∈ c.rowsOf grid ↔
          ∃ p, c.placement? row = some p ∧ grid.cell p.row p.col = p.digit :=
  ⟨rfl, @decode_bijection sampleFour _ rfl⟩

end ExactCover.Sudoku
