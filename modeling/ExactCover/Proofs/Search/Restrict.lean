import ExactCover.Matrix.Samples
import ExactCover.Proofs.Matrix.Construct
import ExactCover.Proofs.Search.Correct
import ExactCover.Proofs.Search.Relabel
/-!
Covered links against a smaller matrix. What covered columns leave of a matrix is a matrix again,
with other numbers for its rows and columns; searching the covered links and searching this matrix
afresh is the same but for these numbers.
-/

namespace ExactCover

/-- The members of a list by their places, and behind its end the numbers from `bound` on. -/
def numbered (l : List Nat) (bound i : Nat) : Nat := l.getD i (bound + i)

theorem numbered_eq {l : List Nat} {i : Nat} (bound : Nat) (h : i < l.length) :
    numbered l bound i = l[i] := by
  rw [numbered, List.getD_eq_getElem?_getD, List.getElem?_eq_getElem h, Option.getD_some]

theorem numbered_of_le {l : List Nat} {bound i : Nat} (h : l.length ≤ i) :
    numbered l bound i = bound + i := by
  rw [numbered, List.getD_eq_getElem?_getD, List.getElem?_eq_none h, Option.getD_none]

theorem strictMono_numbered {l : List Nat} {bound : Nat} (hascending : l.Pairwise (· < ·))
    (hlt : ∀ a ∈ l, a < bound) : StrictMono (numbered l bound) := by
  intro i j hij
  by_cases hj : j < l.length
  · have hi : i < l.length := Nat.lt_trans hij hj
    rw [numbered_eq bound hi, numbered_eq bound hj]
    exact List.pairwise_iff_getElem.1 hascending i j hi hj hij
  · rw [numbered_of_le (Nat.le_of_not_lt hj)]
    by_cases hi : i < l.length
    · have hmem := hlt l[i] (List.getElem_mem hi)
      rw [numbered_eq bound hi]
      omega
    · rw [numbered_of_le (Nat.le_of_not_lt hi)]
      exact Nat.add_lt_add_left hij bound

theorem map_range_numbered (l : List Nat) (bound : Nat) :
    (List.range l.length).map (numbered l bound) = l := by
  apply List.ext_getElem
  · simp
  · intro i _ hi
    rw [List.getElem_map, List.getElem_range, numbered_eq bound hi]

theorem Remainder.solve_relabel {f g : Nat → Nat} (hf : StrictMono f) (p : Remainder)
    (selector : Selector) : (p.relabel f g).solve selector = renamed g (p.solve selector) := by
  have hlength : (p.relabel f g).columns.length = p.columns.length := List.length_map f
  rw [solve, hlength, search_relabel hf, solve]

namespace Matrix

variable {m reduced : Matrix} {covered rows columns : List Nat}

def restrict (m : Matrix) (rows columns : List Nat) : Except MatrixError Matrix :=
  ofDense (rows.map fun row => columns.map (m.isSet row))

theorem restrict_eq_ok (m : Matrix) (hrows : rows ≠ []) (hcolumns : columns ≠ []) :
    ∃ reduced, m.restrict rows columns = .ok reduced ∧ reduced.numColumns = columns.length ∧
      reduced.rows = rows.map fun row => setColumnsFrom 0 (columns.map (m.isSet row)) := by
  let entries := rows.map fun row => columns.map (m.isSet row)
  have hentries : entries ≠ [] := by simpa [entries] using hrows
  have hlength : ∀ row ∈ entries, row.length = columns.length := by simp [entries]
  obtain ⟨reduced, hok, hwidth, heq⟩ :=
    ofDense_eq_ok hentries (List.length_pos_iff.2 hcolumns) hlength
  refine ⟨reduced, hok, hwidth, ?_⟩
  rw [heq, List.map_map]
  rfl

theorem filter_outside {row : Nat} (h : row ∈ m.rowsAvoiding covered) :
    ((List.range m.numColumns).filter (· ∉ covered)).filter (m.isSet row) = (m.liveRow row).ones := by
  obtain ⟨-, havoids⟩ := mem_rowsAvoiding.1 h
  rw [liveRow, ones_eq_filter, List.filter_filter]
  apply List.filter_congr
  intro column _
  by_cases hmem : column ∈ covered
  · simp [havoids column hmem]
  · simp [hmem]

/-- A row of a restricted matrix is the row of the whole matrix under other numbers, if that row sets
nothing outside the listed columns. -/
theorem relabel_liveRow (bound : Nat)
    (hrows : reduced.rows = rows.map fun row => setColumnsFrom 0 (columns.map (m.isSet row)))
    (hinside : ∀ row ∈ rows, columns.filter (m.isSet row) = (m.liveRow row).ones) {i : Nat}
    (hi : i < rows.length) :
    (reduced.liveRow i).relabel (numbered columns bound) (numbered rows 0) =
      m.liveRow (numbered rows 0 i) := by
  have hones : reduced.ones? i = some (setColumnsFrom 0 (columns.map (m.isSet rows[i]))) := by
    rw [ones?, hrows, List.getElem?_map, List.getElem?_eq_getElem hi, Option.map_some]
  have hmap : (setColumnsFrom 0 (columns.map (m.isSet rows[i]))).map (numbered columns bound) =
      (m.liveRow rows[i]).ones := by
    rw [← hinside rows[i] (List.getElem_mem hi)]
    apply map_setColumnsFrom
    intro j hj
    rw [Nat.zero_add, numbered_eq bound hj]
  rw [LiveRow.relabel, liveRow, hones, Option.getD_some, hmap, numbered_eq 0 hi]
  rfl

theorem relabel_restricted (bound : Nat) (hwidth : reduced.numColumns = columns.length)
    (hrows : reduced.rows = rows.map fun row => setColumnsFrom 0 (columns.map (m.isSet row)))
    (hinside : ∀ row ∈ rows, columns.filter (m.isSet row) = (m.liveRow row).ones) :
    (reduced.remainder []).relabel (numbered columns bound) (numbered rows 0) =
      { columns, rows := rows.map m.liveRow } := by
  have hnumRows : reduced.numRows = rows.length := by rw [numRows, hrows, List.length_map]
  rw [remainder_nil, Remainder.relabel, Remainder.mk.injEq]
  constructor
  · rw [Remainder.ofMatrix, hwidth]
    exact map_range_numbered columns bound
  · change (liveRows reduced.rows).map _ = rows.map m.liveRow
    rw [liveRows_eq, hnumRows, List.map_map]
    conv_rhs => rw [← map_range_numbered rows 0, List.map_map]
    apply List.map_congr_left
    intro i hi
    exact relabel_liveRow bound hrows hinside (List.mem_range.1 hi)

/-- The rows and columns that are left are a matrix in which the plain search does the same. -/
theorem exists_restricted (hcolumns : (m.remainder covered).columns ≠ [])
    (hrows : m.rowsAvoiding covered ≠ []) :
    ∃ reduced, m.restrict (m.rowsAvoiding covered) (m.remainder covered).columns = .ok reduced ∧
      reduced.numRows = (m.rowsAvoiding covered).length ∧
      ∀ selector, (m.remainder covered).solve selector =
        Remainder.renamed (numbered (m.rowsAvoiding covered) 0)
          ((reduced.remainder []).solve selector) := by
  obtain ⟨reduced, hreduced, hwidth, heq⟩ := m.restrict_eq_ok hrows hcolumns
  refine ⟨reduced, hreduced, ?_, fun selector => ?_⟩
  · rw [numRows, heq, List.length_map]
  · have hascending : (m.remainder covered).columns.Pairwise (· < ·) :=
      List.pairwise_lt_range.filter _
    have hmono : StrictMono (numbered (m.remainder covered).columns m.numColumns) :=
      strictMono_numbered hascending fun column hmem => (mem_columns_remainder.1 hmem).1
    have hpart := relabel_restricted m.numColumns hwidth heq fun row hmem => filter_outside hmem
    rw [← rows_remainder] at hpart
    rw [← Remainder.solve_relabel hmono, hpart]

end Matrix

namespace Links

/-- Searching the links of a matrix after columns have been covered, in any order, is searching the
matrix of the rows and columns that are left: it finds the same rows, under the numbers that they
have in the whole matrix, and counts the same. -/
theorem solve_covered_eq_solve_restricted (m : Matrix) {covered : List Nat} (hnodup : covered.Nodup)
    (hlt : ∀ column ∈ covered, column < m.numColumns)
    (hcolumn : ∃ column < m.numColumns, column ∉ covered)
    (hrow : ∃ row < m.numRows, ∀ column ∈ covered, m.isSet row column = false) :
    ∃ links reduced, (ofMatrix m).coverEach covered = .ok links ∧
      m.restrict (m.rowsAvoiding covered) ((List.range m.numColumns).filter (· ∉ covered)) =
        .ok reduced ∧
      ∀ (driver : Driver) (selector : Selector), ∃ outcome small,
        links.solve driver selector = .ok outcome ∧
        (ofMatrix reduced).solve driver selector = .ok small ∧
        outcome.stats = small.stats ∧
        (outcome.solution.map fun s => s.rows.map some) =
          small.solution.map fun s => s.rows.map fun row => (m.rowsAvoiding covered)[row]? := by
  obtain ⟨links, hlinks, h⟩ := exists_coverEach m hnodup hlt
  have hcolumns : (m.remainder covered).columns ≠ [] := by
    obtain ⟨column, hlt, hfresh⟩ := hcolumn
    exact List.ne_nil_of_mem (Matrix.mem_columns_remainder.2 ⟨hlt, hfresh⟩)
  have hrows : m.rowsAvoiding covered ≠ [] := by
    obtain ⟨row, hlt, havoids⟩ := hrow
    exact List.ne_nil_of_mem (Matrix.mem_rowsAvoiding.2 ⟨hlt, havoids⟩)
  obtain ⟨reduced, hreduced, hnumRows, hsolve⟩ := Matrix.exists_restricted hcolumns hrows
  refine ⟨links, reduced, hlinks, hreduced, fun driver selector => ⟨_, _,
    h.solve_eq driver selector, (covered_ofMatrix reduced).solve_eq driver selector, ?_⟩⟩
  rw [hsolve selector]
  refine ⟨rfl, ?_⟩
  cases hfound : ((reduced.remainder []).solve selector).2 with
  | none => simp only [outcome, Remainder.renamed, hfound, Option.map_none]
  | some found =>
    have hnumbers : ∀ row ∈ found,
        some (numbered (m.rowsAvoiding covered) 0 row) = (m.rowsAvoiding covered)[row]? := by
      intro row hmem
      have hlt : row < (m.rowsAvoiding covered).length :=
        hnumRows ▸ (Matrix.isExactCover_of_solve hfound).1.lt_numRows row hmem
      rw [numbered_eq 0 hlt, List.getElem?_eq_getElem hlt]
    simp only [outcome, Remainder.renamed, hfound, Option.map_some, List.map_map]
    exact congrArg some (List.map_congr_left hnumbers)

/-- Column 2 is covered: rows 0, 2 and 3 are left, restricted to the columns 0 and 1. -/
theorem solve_covered_eq_solve_restricted_fourRows :
    [2].Nodup ∧ (∀ column ∈ [2], column < fourRows.numColumns) ∧
    (∃ column < fourRows.numColumns, column ∉ [2]) ∧
    (∃ row < fourRows.numRows, ∀ column ∈ [2], fourRows.isSet row column = false) ∧
    ∃ links reduced, (ofMatrix fourRows).coverEach [2] = .ok links ∧
      fourRows.restrict [0, 2, 3] [0, 1] = .ok reduced ∧
      ∀ (driver : Driver) (selector : Selector), ∃ outcome small,
        links.solve driver selector = .ok outcome ∧
        (ofMatrix reduced).solve driver selector = .ok small ∧
        outcome.stats = small.stats ∧
        (outcome.solution.map fun s => s.rows.map some) =
          small.solution.map fun s => s.rows.map fun row => [0, 2, 3][row]? := by
  have hlt : ∀ column ∈ [2], column < fourRows.numColumns := by decide
  have hcolumn : ∃ column < fourRows.numColumns, column ∉ [2] := ⟨0, by decide, by decide⟩
  have hrow : ∃ row < fourRows.numRows, ∀ column ∈ [2], fourRows.isSet row column = false :=
    ⟨0, by decide, by decide⟩
  exact ⟨by decide, hlt, hcolumn, hrow,
    solve_covered_eq_solve_restricted fourRows (by decide) hlt hcolumn hrow⟩

end Links

end ExactCover
