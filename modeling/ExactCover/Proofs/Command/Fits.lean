import ExactCover.Command.Verdict
import ExactCover.Proofs.Matrix.Size
import ExactCover.Proofs.Planted
import ExactCover.Proofs.Sudoku.Bijection
/-!
Which inputs are small enough. The matrix of a text has no more entries than the text has bytes, that
of a sudoku is never large, and that of random draws is bounded by the numbers that are asked for.
-/

namespace ExactCover

theorem Matrix.fits_of_entries_le {m : Matrix} (h : m.numRows * m.numColumns ≤ textLimit) :
    m.Fits where
  nodes_le := by
    have hcolumns : m.numColumns ≤ m.numRows * m.numColumns :=
      Nat.le_mul_of_pos_left _ m.numRows_pos
    have hones := m.numOnes_le
    have hlimit : 1 + textLimit + textLimit ≤ nodeLimit := by decide +kernel
    omega
  entries_le := h.trans (by decide)

theorem Links.build_eq_ok {m : Matrix} (h : 1 + m.numColumns + m.numOnes ≤ nodeLimit) :
    build m = .ok (ofMatrix m) :=
  if_neg (Nat.not_lt.2 h)

theorem Links.build_eq_error {m : Matrix} (h : nodeLimit < 1 + m.numColumns + m.numOnes) :
    build m = .error (.nodes (1 + m.numColumns + m.numOnes)) :=
  if_pos h

theorem Planted.Fits.matrix_fits {g : Generator} (hg : g.Lawful) {p : Planted} (hp : p.Fits)
    {planted : PlantedMatrix} (h : p.generate g = .ok planted) : planted.matrix.Fits := by
  obtain ⟨hcolumns, hwidth, hrows, -⟩ := of_generate hg h
  have hdivided := divided_drawAll hg hcolumns
  have hlength : planted.matrix.numRows ≤ p.columns + p.extraRows := by
    rw [Matrix.numRows, hrows, List.length_map]
    exact hdivided.length_le
  constructor
  · rw [hwidth]
    exact (Nat.add_le_add_left (hdivided.numOnes_le hrows) _).trans hp.nodes_le
  · rw [hwidth]
    exact (Nat.mul_le_mul_right _ hlength).trans hp.entries_le

theorem Sudoku.checked_of_parseContents {contents : Text.Contents} {s : Sudoku}
    (h : parseContents contents = .ok s) : s.Checked := by
  cases contents with
  | error cause => cases h
  | ok bytes =>
    cases htext : Text.decode bytes with
    | none =>
      rw [parseContents, parseBytes, htext] at h
      cases h
    | some text =>
      rw [parseContents, parseBytes, htext] at h
      obtain ⟨rows, -, hboard⟩ := bind_eq_ok_iff.1 h
      exact (checked_of_ofBoard hboard).2

theorem Sudoku.length_allowed_le (s : Sudoku) :
    s.allowed.length ≤ s.size.toNat * s.size.toNat * s.size.toNat := by
  have hpositions : (positions s.size.toNat).length = s.size.toNat * s.size.toNat := by
    simp [positions]
  have hcell : ∀ list ∈ (positions s.size.toNat).map (fun cell =>
      cellPlacements s.size.toNat cell.1 cell.2 (s.board.cell cell.1 cell.2)),
      list.length ≤ s.size.toNat := by
    intro list hlist
    obtain ⟨cell, -, rfl⟩ := List.mem_map.1 hlist
    rw [length_cellPlacements]
    split
    case isTrue => exact Nat.le_refl _
    case isFalse => exact s.size.toNat_pos
  have hle := length_flatten_le hcell
  rwa [List.length_map, hpositions, ← List.flatMap_def] at hle

theorem Sudoku.Reduces.fits {s : Sudoku} {c : Sudoku.Cover} (h : s.Reduces c) : c.matrix.Fits := by
  apply Matrix.fits_of_entries_le
  have hlimit : s.size.toNat * s.size.toNat * s.size.toNat * (4 * s.size.toNat * s.size.toNat) ≤
      textLimit := by
    cases s.size <;> decide
  rw [h.numRows_eq, h.placements_eq, h.numColumns_eq]
  exact (Nat.mul_le_mul_right _ s.length_allowed_le).trans hlimit

namespace Task

theorem length_breakLines_le (text : List Char) : (breakLines text).length ≤ text.length := by
  fun_induction breakLines text with
  | case1 rest ih => exact Nat.succ_le_succ (ih.trans (Nat.le_succ _))
  | case2 c rest _ ih => exact Nat.succ_le_succ ih
  | case3 => exact Nat.le_refl _

theorem Gives.fits {g : Generator} {task : Task} {m : Matrix} (hgives : task.Gives g m)
    (hg : g.Lawful) (h : task.Fits) : m.Fits := by
  cases hgives with
  | @matrix path contents m hparse =>
    cases contents with
    | error cause => cases hparse
    | ok bytes =>
      cases h with
      | matrix hbytes =>
        have hentries := Matrix.entries_le_of_parseBytes hparse
        exact Matrix.fits_of_entries_le (hentries.trans (hbytes _ rfl))
  | @text input m hparse =>
    cases h with
    | text hinput =>
      refine Matrix.fits_of_entries_le ((Matrix.entries_le_of_parse hparse).trans ?_)
      exact (length_breakLines_le _).trans ((Text.length_toList_le input).trans hinput)
  | @sudoku path contents s c hparse hcover =>
    obtain ⟨c', hc', hreduces⟩ := (Sudoku.checked_of_parseContents hparse).toExactCover_eq
    obtain rfl : c' = c := Except.ok.inj (hc'.symm.trans hcover)
    exact hreduces.fits
  | random hgenerate =>
    cases h with
    | random hparams => exact hparams.matrix_fits hg hgenerate

end Task

end ExactCover
