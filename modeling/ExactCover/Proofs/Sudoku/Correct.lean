import ExactCover.Proofs.Search.Correct
import ExactCover.Proofs.Sudoku.Decode
import ExactCover.Proofs.Sudoku.Reduction
import ExactCover.Sudoku.Samples
/-!
Solving a sudoku through its exact cover form. The exact covers of the form are the completions of
the puzzle: reading one off gives a completion, and the placements of a completion are one.
-/

namespace ExactCover.Sudoku

variable {s : Sudoku} {c : Cover} {grid : Board} {p : Placement} {row col digit : Nat}
  {rows : List Nat}

/-- The rows of the exact cover form whose digit stands in their cell. -/
def Cover.rowsOf (c : Cover) (grid : Board) : List Nat :=
  (List.range c.matrix.numRows).filter fun row =>
    (c.placement? row).any fun p => grid.cell p.row p.col == p.digit

namespace Reduces

/-- The placements of a board are those that the givens leave and the board shows. -/
theorem mem_rowsOf (h : s.Reduces c) : p ∈ (c.rowsOf grid).filterMap c.placement? ↔
    p ∈ s.allowed ∧ grid.cell p.row p.col = p.digit := by
  simp only [List.mem_filterMap, Cover.rowsOf, List.mem_filter, List.mem_range]
  constructor
  · rintro ⟨row, ⟨-, hany⟩, hrow⟩
    refine ⟨h.mem_allowed_of_placement hrow, ?_⟩
    simpa [hrow] using hany
  · rintro ⟨hmem, hcell⟩
    rw [← h.placements_eq] at hmem
    obtain ⟨row, hrow⟩ := List.mem_iff_getElem?.1 hmem
    have hplacement : c.placement? row = some p := hrow
    exact ⟨row, ⟨h.lt_of_placement hplacement, by simpa [hplacement] using hcell⟩, hplacement⟩

variable (h : s.Reduces c) (hs : s.Checked)
include h hs

theorem fits_of_mem (hp : p ∈ rows.filterMap c.placement?) : p.Fits s.size := by
  obtain ⟨row, -, hrow⟩ := List.mem_filterMap.1 hp
  exact h.fits_of_placement hs hrow

theorem shows_of_isExactCover (hcover : c.matrix.IsExactCover rows) :
    (c.decode ⟨rows⟩).Shows s.size (rows.filterMap c.placement?) := by
  obtain ⟨-, -, honce⟩ := (h.isExactCover_iff hs).1 hcover
  rw [← h.size_eq] at honce ⊢
  apply Cover.shows_decode
  · intro p hp
    rw [h.size_eq]
    exact h.fits_of_mem hs hp
  · exact fun row hrow col hcol => honce (.filled row col) ⟨hrow, hcol⟩

/-- What an exact cover fills in is a completion. -/
theorem isCompletion_decode (hcover : c.matrix.IsExactCover rows) :
    s.IsCompletion (c.decode ⟨rows⟩) := by
  obtain ⟨-, -, honce⟩ := (h.isExactCover_iff hs).1 hcover
  have hshows := h.shows_of_isExactCover hs hcover
  refine ⟨⟨h.size_eq ▸ Cover.isSquare_decode c ⟨rows⟩, ?_⟩, ?_⟩
  · intro house index hindex digit hone hle
    exact hshows.placed_once_iff.1 (honce (.placed house index digit) ⟨hindex, hone, hle⟩)
  · intro row col hgiven
    obtain ⟨hrow, hcol⟩ := hs.lt_of_given hgiven
    have hmem := (hshows.mem_iff hrow hcol).2 rfl
    obtain ⟨_, -, hplacement⟩ := List.mem_filterMap.1 hmem
    exact (hs.mem_allowed.1 (h.mem_allowed_of_placement hplacement)).2 hgiven

theorem shows_rowsOf (hgrid : s.IsCompletion grid) :
    grid.Shows s.size ((c.rowsOf grid).filterMap c.placement?) := by
  refine ⟨fun p hp => h.fits_of_mem hs hp, ?_⟩
  intro row col digit hrow hcol
  rw [h.mem_rowsOf]
  constructor
  · exact And.right
  · rintro rfl
    obtain ⟨hone, hle⟩ := hgrid.cell_range hrow hcol
    exact ⟨hs.mem_allowed.2 ⟨⟨hrow, hcol, hone, hle⟩, hgrid.keeps row col⟩, rfl⟩

/-- The placements of a completion are an exact cover. -/
theorem isExactCover_rowsOf (hgrid : s.IsCompletion grid) :
    c.matrix.IsExactCover (c.rowsOf grid) := by
  have hshows := h.shows_rowsOf hs hgrid
  refine (h.isExactCover_iff hs).2 ⟨List.nodup_range.filter _, ?_, ?_⟩
  · exact fun row hrow => List.mem_range.1 (List.mem_of_mem_filter hrow)
  · intro k hk
    cases k with
    | filled row col => exact hshows.filled_once hk.1 hk.2
    | placed house index digit =>
      exact hshows.placed_once_iff.2 (hgrid.once house index hk.1 digit hk.2.1 hk.2.2)

theorem hasExactCover_iff : c.matrix.HasExactCover ↔ ∃ grid, s.IsCompletion grid := by
  constructor
  · rintro ⟨rows, hcover⟩
    exact ⟨_, h.isCompletion_decode hs hcover⟩
  · rintro ⟨grid, hgrid⟩
    exact ⟨_, h.isExactCover_rowsOf hs hgrid⟩

end Reduces

/-- A sudoku is solved through its exact cover form, which every accepted board has: rows are found
exactly when the board can be completed, and they fill in a completion. -/
theorem solve_finds_completion {board : Board} {s : Sudoku} (hs : ofBoard board = .ok s) :
    s.board = board ∧ s.size.toNat = board.length ∧ ∃ c, s.toExactCover = .ok c ∧
      ∀ (driver : Driver) (selector : Selector), ∃ outcome,
        (Links.ofMatrix c.matrix).solve driver selector = .ok outcome ∧
        (outcome.solution.isSome = true ↔ ∃ grid, s.IsCompletion grid) ∧
        ∀ solution, outcome.solution = some solution →
          s.IsCompletion (c.decode solution) ∧
          (c.decode solution).isCompleteAndValid = true ∧
          ∀ row col, board.cell row col ≠ 0 → (c.decode solution).cell row col = board.cell row col := by
  obtain ⟨rfl, hchecked⟩ := checked_of_ofBoard hs
  obtain ⟨c, hc, hreduces⟩ := hchecked.toExactCover_eq
  refine ⟨rfl, hchecked.length_rows.symm, c, hc, fun driver selector =>
    ⟨_, (Links.covered_ofMatrix c.matrix).solve_eq driver selector, ?_, ?_⟩⟩
  · rw [← hreduces.hasExactCover_iff hchecked, ← c.matrix.isSome_solve_iff selector]
    simp [Links.outcome]
  · intro solution hsolution
    obtain ⟨rows, hrows, rfl⟩ := Option.map_eq_some_iff.1 hsolution
    have hcompletion := hreduces.isCompletion_decode hchecked (Matrix.isExactCover_of_solve hrows).1
    exact ⟨hcompletion, hcompletion.isCompleteAndValid, hcompletion.keeps⟩

theorem solve_finds_completion_sampleFour :
    ofBoard sampleFour = .ok { board := sampleFour, size := .four } ∧
    ∃ c, toExactCover { board := sampleFour, size := .four } = .ok c ∧
      ∀ (driver : Driver) (selector : Selector), ∃ outcome,
        (Links.ofMatrix c.matrix).solve driver selector = .ok outcome ∧
        (outcome.solution.isSome = true ↔
          ∃ grid, IsCompletion { board := sampleFour, size := .four } grid) ∧
        ∀ solution, outcome.solution = some solution →
          IsCompletion { board := sampleFour, size := .four } (c.decode solution) ∧
          (c.decode solution).isCompleteAndValid = true ∧
          ∀ row col, sampleFour.cell row col ≠ 0 →
            (c.decode solution).cell row col = sampleFour.cell row col :=
  ⟨rfl, (@solve_finds_completion sampleFour _ rfl).2.2⟩

end ExactCover.Sudoku
