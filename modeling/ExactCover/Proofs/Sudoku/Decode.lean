import ExactCover.Proofs.Sudoku.Constraint
/-!
Placements on a board. A board shows a set of placements when its cells are exactly these; then the
placements meet every constraint once exactly when the board is full, and writing placements that
fill every cell once gives the board that shows them.
-/

namespace ExactCover.Sudoku

variable {size : Size} {grid : Board} {ps : List Placement} {p : Placement}
  {house : House} {row col digit index n : Nat} {cells : List (List Nat)}

structure Board.Shows (size : Size) (ps : List Placement) (grid : Board) : Prop where
  fits : ∀ p ∈ ps, p.Fits size
  mem_iff : ∀ {row col digit : Nat}, row < size.toNat → col < size.toNat →
    (({ row, col, digit } : Placement) ∈ ps ↔ grid.cell row col = digit)

namespace Board.Shows

variable (h : grid.Shows size ps)
include h

theorem cell_eq (hp : p ∈ ps) : grid.cell p.row p.col = p.digit :=
  (h.mem_iff (h.fits p hp).row_lt (h.fits p hp).col_lt).1 hp

theorem filled_once (hrow : row < size.toNat) (hcol : col < size.toNat) :
    ∃! p, p ∈ ps ∧ .filled row col ∈ p.constraints size := by
  refine ⟨{ row, col, digit := grid.cell row col },
    ⟨(h.mem_iff hrow hcol).2 rfl, Placement.filled_mem_constraints.2 ⟨rfl, rfl⟩⟩, ?_⟩
  rintro p ⟨hp, hmeets⟩
  obtain ⟨rfl, rfl⟩ := Placement.filled_mem_constraints.1 hmeets
  rw [h.cell_eq hp]

theorem placed_once_iff : (∃! p, p ∈ ps ∧ .placed house index digit ∈ p.constraints size) ↔
    grid.HoldsOnce size house index digit := by
  simp only [Placement.placed_mem_constraints]
  constructor
  · rintro ⟨p, ⟨hp, hhouse, rfl⟩, hunique⟩
    refine ⟨(p.row, p.col), ⟨(h.fits p hp).row_lt, (h.fits p hp).col_lt, hhouse, h.cell_eq hp⟩, ?_⟩
    rintro ⟨row, col⟩ ⟨hrow, hcol, hhouse', hcell⟩
    have heq := hunique { row, col, digit := p.digit }
      ⟨(h.mem_iff hrow hcol).2 hcell, hhouse', rfl⟩
    rw [← heq]
  · rintro ⟨⟨row, col⟩, ⟨hrow, hcol, hhouse, hcell⟩, hunique⟩
    refine ⟨{ row, col, digit }, ⟨(h.mem_iff hrow hcol).2 hcell, hhouse, rfl⟩, ?_⟩
    rintro p ⟨hp, hhouse', rfl⟩
    have heq := hunique (p.row, p.col)
      ⟨(h.fits p hp).row_lt, (h.fits p hp).col_lt, hhouse', h.cell_eq hp⟩
    cases heq
    rfl

end Board.Shows

namespace Cover

theorem cell?_write (cells : List (List Nat)) (p : Placement) (row col : Nat) :
    (Board.mk (write cells p)).cell? row col =
      ((Board.mk cells).cell? row col).map fun old =>
        if p.row = row ∧ p.col = col then p.digit else old := by
  simp only [Board.cell?, write, List.getElem?_modify]
  cases cells[row]? with
  | none => simp
  | some line =>
    by_cases hrow : p.row = row
    · by_cases hcol : p.col = col
      · by_cases hlt : col < line.length <;> simp [hrow, hcol, hlt]
      · simp [hrow, hcol]
    · simp [hrow]

/-- Where all placements in a cell agree and one of them is written, their digit stands. -/
theorem cell?_foldl_write (hall : ∀ p ∈ ps, p.row = row → p.col = col → p.digit = digit)
    (hcell : (Board.mk cells).cell? row col = some digit ∨
      ((Board.mk cells).cell? row col).isSome ∧ ∃ p ∈ ps, p.row = row ∧ p.col = col) :
    (Board.mk (ps.foldl write cells)).cell? row col = some digit := by
  -- After the first placement in the cell the left alternative holds and stays.
  induction ps generalizing cells with
  | nil => simpa using hcell
  | cons p ps ih =>
    rw [List.foldl_cons]
    apply ih fun q hq => hall q (List.mem_cons_of_mem p hq)
    rw [cell?_write, Option.isSome_map]
    by_cases hp : p.row = row ∧ p.col = col
    · have hdigit : p.digit = digit := hall p List.mem_cons_self hp.1 hp.2
      have hsome : ((Board.mk cells).cell? row col).isSome := by
        rcases hcell with hcell | ⟨hsome, -⟩
        · rw [hcell]
          rfl
        · exact hsome
      obtain ⟨old, hold⟩ := Option.isSome_iff_exists.1 hsome
      left
      rw [hold, Option.map_some, if_pos hp, hdigit]
    · simp only [if_neg hp, Option.map_id']
      rcases hcell with hcell | ⟨hsome, q, hq, hat⟩
      · exact .inl hcell
      · rcases List.mem_cons.1 hq with rfl | hq
        · exact absurd hat hp
        · exact .inr ⟨hsome, q, hq, hat⟩

theorem isSquare_write (h : (Board.mk cells).IsSquare n) (p : Placement) :
    (Board.mk (write cells p)).IsSquare n := by
  refine ⟨(List.length_modify _ _ _).trans h.length_rows, ?_⟩
  intro line hline
  obtain ⟨row, hrow⟩ := List.mem_iff_getElem?.1 hline
  rw [write, List.getElem?_modify] at hrow
  obtain ⟨old, hold, rfl⟩ := Option.map_eq_some_iff.1 hrow
  have hlength : old.length = n := h.length_row old (List.mem_of_getElem? hold)
  split
  case isTrue => rw [List.length_set, hlength]
  case isFalse => exact hlength

theorem isSquare_foldl_write (h : (Board.mk cells).IsSquare n) (ps : List Placement) :
    (Board.mk (ps.foldl write cells)).IsSquare n := by
  induction ps generalizing cells with
  | nil => exact h
  | cons p ps ih => exact ih (isSquare_write h p)

theorem isSquare_empty (n : Nat) :
    (Board.mk (List.replicate n (List.replicate n 0))).IsSquare n := by
  refine ⟨List.length_replicate, ?_⟩
  intro line hline
  rw [(List.mem_replicate.1 hline).2, List.length_replicate]

theorem isSquare_decode (c : Cover) (solution : Solution) :
    (c.decode solution).IsSquare c.size.toNat :=
  isSquare_foldl_write (isSquare_empty _) _

/-- Placements that fill every cell once, written to an empty board, are what the board shows. -/
theorem shows_decode {c : Cover} {rows : List Nat}
    (hfits : ∀ p ∈ rows.filterMap c.placement?, p.Fits c.size)
    (hfilled : ∀ row < c.size.toNat, ∀ col < c.size.toNat,
      ∃! p, p ∈ rows.filterMap c.placement? ∧ .filled row col ∈ p.constraints c.size) :
    (c.decode ⟨rows⟩).Shows c.size (rows.filterMap c.placement?) := by
  refine ⟨hfits, ?_⟩
  intro row col digit hrow hcol
  obtain ⟨p, ⟨hp, hat⟩, hunique⟩ := hfilled row hrow col hcol
  obtain ⟨rfl, rfl⟩ := Placement.filled_mem_constraints.1 hat
  have hcell : (c.decode ⟨rows⟩).cell p.row p.col = p.digit := by
    have hdigit : (c.decode ⟨rows⟩).cell? p.row p.col = some p.digit := by
      apply cell?_foldl_write
      · intro q hq hrow' hcol'
        rw [hunique q ⟨hq, Placement.filled_mem_constraints.2 ⟨hrow', hcol'⟩⟩]
      · rw [(isSquare_empty c.size.toNat).cell?_eq hrow hcol]
        exact .inr ⟨rfl, p, hp, rfl, rfl⟩
    rw [Board.cell, hdigit, Option.getD_some]
  rw [hcell]
  constructor
  · intro hmem
    rw [← hunique _ ⟨hmem, Placement.filled_mem_constraints.2 ⟨rfl, rfl⟩⟩]
  · rintro rfl
    exact hp

end Cover

end ExactCover.Sudoku
