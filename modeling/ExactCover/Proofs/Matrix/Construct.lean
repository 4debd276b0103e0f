import Mathlib.Data.List.Sort
import ExactCover.Matrix.Construct
import ExactCover.Proofs.First
import ExactCover.Proofs.Remainder
/-!
Which matrix a listing of entries gives. A listing of the right shape is accepted, and its rows are
then known by their set columns alone.
-/

namespace ExactCover

/-- The set columns of a row of chosen entries are the places of those that are set. -/
theorem map_setColumnsFrom {f : Nat → Nat} {p : Nat → Bool} {first : Nat} {columns : List Nat}
    (hf : ∀ i (h : i < columns.length), f (first + i) = columns[i]) :
    (setColumnsFrom first (columns.map p)).map f = columns.filter p := by
  induction columns generalizing first with
  | nil => rfl
  | cons column columns ih =>
    have hfirst : f first = column := hf 0 (Nat.zero_lt_succ _)
    have hrest : (setColumnsFrom (first + 1) (columns.map p)).map f = columns.filter p := by
      apply ih
      intro i hi
      rw [Nat.add_right_comm]
      exact hf (i + 1) (Nat.succ_lt_succ hi)
    rw [List.map_cons]
    cases hp : p column with
    | true => rw [setColumnsFrom, List.map_cons, hfirst, hrest, List.filter_cons_of_pos hp]
    | false => rw [setColumnsFrom, hrest, List.filter_cons_of_neg (by simp [hp])]

theorem setColumnsFrom_denseFrom {first count : Nat} {ones : List Nat}
    (hascending : ones.Pairwise (· < ·)) (hones : ∀ one ∈ ones, first ≤ one ∧ one < first + count) :
    setColumnsFrom first (Matrix.denseFrom first count ones) = ones := by
  induction count generalizing first ones with
  | zero =>
    cases ones with
    | nil => rfl
    | cons one ones =>
      have := hones one List.mem_cons_self
      omega
  | succ count ih =>
    cases ones with
    | nil => exact ih .nil fun _ h => absurd h List.not_mem_nil
    | cons one ones =>
      obtain ⟨habove, hrest⟩ := List.pairwise_cons.1 hascending
      obtain ⟨hle, hlt⟩ := hones one List.mem_cons_self
      by_cases heq : one = first
      · rw [Matrix.denseFrom, if_pos heq, setColumnsFrom, heq, ih hrest]
        intro other hother
        have hother_lt := (hones other (List.mem_cons_of_mem one hother)).2
        have hother_gt := habove other hother
        omega
      · rw [Matrix.denseFrom, if_neg heq, setColumnsFrom, ih hascending]
        intro other hother
        have hother_lt := (hones other hother).2
        have hother_ge : one ≤ other := by
          rcases List.mem_cons.1 hother with rfl | hother
          · exact Nat.le_refl _
          · exact Nat.le_of_lt (habove other hother)
        omega

namespace Matrix

variable {m m' : Matrix}

theorem ext_rows (hcolumns : m.numColumns = m'.numColumns) (hrows : m.rows = m'.rows) : m = m' := by
  cases m
  cases m'
  simp_all

theorem firstRagged_eq_none_iff {width : Nat} {rows : List (List Bool)} :
    firstRagged width rows = none ↔ ∀ entries ∈ rows, entries.length = width := by
  rw [firstRagged, findSome?_zipIdx_eq_none_iff (p := (·.length ≠ width)) (by simp)]
  simp only [ne_eq, not_not]

theorem ofDense_eq_ok {width : Nat} {rows : List (List Bool)} (hrows : rows ≠ []) (hwidth : 0 < width)
    (hlength : ∀ row ∈ rows, row.length = width) :
    ∃ m, ofDense rows = .ok m ∧ m.numColumns = width ∧ m.rows = rows.map (setColumnsFrom 0) := by
  cases rows with
  | nil => exact absurd rfl hrows
  | cons first rest =>
    have hfirst : first.length = width := hlength first List.mem_cons_self
    have hragged : firstRagged first.length (first :: rest) = none :=
      firstRagged_eq_none_iff.2 fun row hrow => (hlength row hrow).trans hfirst.symm
    have hwidth' : first.length ≠ 0 := by omega
    unfold ofDense
    simp only [hwidth', dite_false]
    split
    case h_1 hsome =>
      rw [hragged] at hsome
      cases hsome
    case h_2 => exact ⟨_, rfl, hfirst, rfl⟩

theorem ofDense_dense (m : Matrix) : ofDense m.dense = .ok m := by
  have hlength : ∀ row ∈ m.dense, row.length = m.numColumns := by
    intro row hrow
    obtain ⟨ones, -, rfl⟩ := List.mem_map.1 hrow
    exact length_denseFrom 0 m.numColumns ones
  have hne : m.dense ≠ [] := fun h => m.rows_ne_nil (List.map_eq_nil_iff.1 h)
  obtain ⟨m', hm', hcolumns, hrows⟩ := ofDense_eq_ok hne m.numColumns_pos hlength
  have hsame : m'.rows = m.rows := by
    have hones : ∀ ones ∈ m.rows, setColumnsFrom 0 (denseFrom 0 m.numColumns ones) = ones := by
      intro ones hmem
      refine setColumnsFrom_denseFrom (m.ascending ones hmem) fun one hone => ⟨Nat.zero_le one, ?_⟩
      rw [Nat.zero_add]
      exact m.bounded ones hmem one hone
    rw [hrows, dense, List.map_map]
    exact (List.map_congr_left hones).trans (List.map_id _)
  rw [hm', ext_rows hcolumns hsame]

/-- A row with a column outside the matrix. -/
def LeavesRange (numColumns : Nat) (columns : List Nat) : Prop :=
  ∃ column ∈ columns, numColumns ≤ column

theorem not_leavesRange_iff {numColumns : Nat} (columns : List Nat) (row : Nat) :
    ((columns.find? fun column => decide (numColumns ≤ column)).map fun column => (row, column)) = none ↔
      ¬ LeavesRange numColumns columns := by
  simp [LeavesRange]

theorem firstOutOfRange_eq_none_iff {numColumns : Nat} {rows : List (List Nat)} :
    firstOutOfRange numColumns rows = none ↔
    ∀ columns ∈ rows, ∀ column ∈ columns, column < numColumns := by
  rw [firstOutOfRange, findSome?_zipIdx_eq_none_iff not_leavesRange_iff]
  simp only [LeavesRange, not_exists, not_and, Nat.not_le]

theorem ofSparse_eq_ok {numColumns : Nat} {rows : List (List Nat)} (hcolumns : 0 < numColumns)
    (hrows : rows ≠ []) (hlt : ∀ row ∈ rows, ∀ column ∈ row, column < numColumns) :
    ∃ m, ofSparse numColumns rows = .ok m ∧ m.numColumns = numColumns ∧ m.rows = rows.map ascend := by
  have hrange := firstOutOfRange_eq_none_iff.2 hlt
  unfold ofSparse
  rw [dif_neg hcolumns.ne']
  split
  case h_1 hsome =>
    rw [hrange] at hsome
    cases hsome
  case h_2 =>
    rw [dif_neg hrows]
    exact ⟨_, rfl, rfl, rfl⟩

theorem ones_eq_filter (m : Matrix) (row : Nat) :
    (m.ones? row).getD [] = (List.range m.numColumns).filter (m.isSet row) := by
  have hascending : ((m.ones? row).getD []).Pairwise (· < ·) := by
    cases hones : m.ones? row with
    | none => exact .nil
    | some ones => exact m.ascending ones (List.mem_of_getElem? hones)
  apply hascending.eq_of_mem_iff (List.pairwise_lt_range.filter _)
  intro column
  rw [← isSet_iff, List.mem_filter, List.mem_range]
  exact ⟨fun h => ⟨(lt_of_isSet h).2, h⟩, And.right⟩

theorem ext_isSet (hcolumns : m.numColumns = m'.numColumns) (hrows : m.numRows = m'.numRows)
    (hset : ∀ row column, m.isSet row column = m'.isSet row column) : m = m' := by
  have hones : m.rows = m'.rows := by
    refine List.ext_getElem hrows fun row hrow hrow' => ?_
    have hrow_eq := m.ones_eq_filter row
    have hrow_eq' := m'.ones_eq_filter row
    rw [ones?, List.getElem?_eq_getElem hrow, Option.getD_some] at hrow_eq
    rw [ones?, List.getElem?_eq_getElem hrow', Option.getD_some] at hrow_eq'
    rw [hrow_eq, hrow_eq', hcolumns]
    exact List.filter_congr fun column _ => hset row column
  exact ext_rows hcolumns hones

end Matrix

end ExactCover
