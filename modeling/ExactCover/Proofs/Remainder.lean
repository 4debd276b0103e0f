import Mathlib.Data.List.Basic
import Mathlib.Data.List.Nodup
import ExactCover.Search.Plain
/-!
What is left of a matrix after columns have been struck out. It depends on the set of these columns
only; the order shows in the costs alone.
-/

namespace ExactCover

theorem filter_map_of {α β : Type} {f : α → β} {p : β → Bool} {q : α → Bool} {l : List α}
    (h : ∀ a ∈ l, p (f a) = q a) : (l.map f).filter p = (l.filter q).map f := by
  rw [List.filter_map]
  exact congrArg (List.map f) (List.filter_congr h)

def liveRows (rows : List (List Nat)) : List LiveRow :=
  rows.zipIdx.map fun (ones, row) => { row, ones }

theorem mem_liveRows {rows : List (List Nat)} {live : LiveRow} :
    live ∈ liveRows rows ↔ rows[live.row]? = some live.ones := by
  simp only [liveRows, List.mem_map, Prod.exists]
  constructor
  · rintro ⟨ones, row, hmem, rfl⟩
    exact List.mem_zipIdx_iff_getElem?.1 hmem
  · intro h
    exact ⟨live.ones, live.row, List.mem_zipIdx_iff_getElem?.2 h, rfl⟩

theorem liveRows_concat (rows : List (List Nat)) (ones : List Nat) :
    liveRows (rows ++ [ones]) = liveRows rows ++ [{ row := rows.length, ones }] := by
  simp [liveRows, List.zipIdx_append]

theorem map_row_liveRows (rows : List (List Nat)) :
    (liveRows rows).map LiveRow.row = List.range rows.length := by
  rw [liveRows, List.map_map, List.range_eq_range']
  exact List.zipIdx_map_snd 0 rows

theorem map_ones_liveRows (rows : List (List Nat)) : (liveRows rows).map LiveRow.ones = rows := by
  rw [liveRows, List.map_map]
  exact List.zipIdx_map_fst 0 rows

theorem nodup_map_row_liveRows (rows : List (List Nat)) :
    ((liveRows rows).map LiveRow.row).Nodup := by
  rw [map_row_liveRows]
  exact List.nodup_range

theorem nodup_liveRows (rows : List (List Nat)) : (liveRows rows).Nodup :=
  (nodup_map_row_liveRows rows).of_map LiveRow.row

theorem Remainder.mem_others {live : LiveRow} {column other : Nat} :
    other ∈ others live column ↔ other ∈ live.ones ∧ other ≠ column := by
  simp only [others, List.mem_append, List.mem_filter, decide_eq_true_eq]
  constructor
  · rintro (⟨hmem, hlt⟩ | ⟨hmem, hlt⟩)
    · exact ⟨hmem, (Nat.ne_of_lt hlt).symm⟩
    · exact ⟨hmem, Nat.ne_of_lt hlt⟩
  · rintro ⟨hmem, hne⟩
    rcases Nat.lt_or_gt_of_ne hne with hlt | hlt
    · exact .inr ⟨hmem, hlt⟩
    · exact .inl ⟨hmem, hlt⟩

/-- What is left of a matrix when columns are struck out. -/
def Matrix.remainder (m : Matrix) (struck : List Nat) : Remainder where
  columns := (List.range m.numColumns).filter (· ∉ struck)
  rows := (liveRows m.rows).filter fun live => ∀ column ∈ struck, column ∉ live.ones

namespace Matrix

variable {m : Matrix} {struck : List Nat} {row column : Nat} {live : LiveRow}

theorem mem_columns_remainder :
    column ∈ (m.remainder struck).columns ↔ column < m.numColumns ∧ column ∉ struck := by
  simp [remainder]

theorem mem_rows_remainder : live ∈ (m.remainder struck).rows ↔
    live ∈ liveRows m.rows ∧ ∀ column ∈ struck, column ∉ live.ones := by
  simp [remainder]

theorem mem_candidates_remainder : live ∈ (m.remainder struck).candidates column ↔
    live ∈ liveRows m.rows ∧ (∀ column ∈ struck, column ∉ live.ones) ∧ column ∈ live.ones := by
  rw [Remainder.candidates, List.mem_filter, mem_rows_remainder, List.contains_iff_mem, and_assoc]

theorem isSet_iff : m.isSet row column = true ↔ column ∈ (m.ones? row).getD [] := by
  rw [isSet, entry?]
  cases hones : m.ones? row with
  | none => simp
  | some ones =>
    have hbounded : column ∈ ones → column < m.numColumns :=
      m.bounded ones (List.mem_of_getElem? hones) column
    by_cases hlt : column < m.numColumns
    · simp [hlt]
    · simp only [hlt, if_false, Option.getD_some]
      exact ⟨fun h => by simp at h, fun h => absurd (hbounded h) hlt⟩

/-- Nothing is set outside the matrix. -/
theorem lt_of_isSet (h : m.isSet row column = true) : row < m.numRows ∧ column < m.numColumns := by
  rw [isSet_iff] at h
  cases hones : m.ones? row with
  | none =>
    rw [hones] at h
    cases h
  | some ones =>
    rw [hones] at h
    obtain ⟨hrow, -⟩ := List.getElem?_eq_some_iff.1 hones
    exact ⟨hrow, m.bounded ones (List.mem_of_getElem? hones) column h⟩

theorem isSet_row (hlive : live ∈ liveRows m.rows) :
    m.isSet live.row column = true ↔ column ∈ live.ones := by
  have hrow : m.ones? live.row = some live.ones := mem_liveRows.1 hlive
  rw [isSet_iff, hrow, Option.getD_some]

def liveRow (m : Matrix) (row : Nat) : LiveRow := { row, ones := (m.ones? row).getD [] }

theorem contains_liveRow (m : Matrix) (row column : Nat) :
    (m.liveRow row).ones.contains column = m.isSet row column := by
  rw [Bool.eq_iff_iff, isSet_iff, List.contains_iff_mem]
  rfl

theorem liveRow_row (hlive : live ∈ liveRows m.rows) : m.liveRow live.row = live := by
  have hrow : m.ones? live.row = some live.ones := mem_liveRows.1 hlive
  rw [liveRow, hrow, Option.getD_some]

theorem liveRows_eq (m : Matrix) : liveRows m.rows = (List.range m.numRows).map m.liveRow := by
  rw [numRows, ← map_row_liveRows, List.map_map]
  exact (List.map_id _).symm.trans
    (List.map_congr_left fun live hlive => (liveRow_row hlive).symm)

theorem liveRow_mem_liveRows (hrow : row < m.numRows) : m.liveRow row ∈ liveRows m.rows := by
  rw [liveRows_eq]
  exact List.mem_map_of_mem (List.mem_range.2 hrow)

theorem mem_ones_liveRow : column ∈ (m.liveRow row).ones ↔ m.isSet row column = true :=
  isSet_iff.symm

/-- The rows that set none of the struck columns, top to bottom. -/
def rowsAvoiding (m : Matrix) (struck : List Nat) : List Nat :=
  (List.range m.numRows).filter fun row => struck.all fun column => !m.isSet row column

theorem mem_rowsAvoiding : row ∈ m.rowsAvoiding struck ↔
    row < m.numRows ∧ ∀ column ∈ struck, m.isSet row column = false := by
  simp [rowsAvoiding]

theorem rows_remainder (m : Matrix) (struck : List Nat) :
    (m.remainder struck).rows = (m.rowsAvoiding struck).map m.liveRow := by
  rw [remainder, liveRows_eq, rowsAvoiding]
  apply filter_map_of
  intro row _
  rw [Bool.eq_iff_iff]
  simp [← contains_liveRow]

theorem ascending_of_mem (h : live ∈ liveRows m.rows) : live.ones.Pairwise (· < ·) :=
  m.ascending _ (List.mem_of_getElem? (mem_liveRows.1 h))

theorem bounded_of_mem (h : live ∈ liveRows m.rows) (hcolumn : column ∈ live.ones) :
    column < m.numColumns :=
  m.bounded _ (List.mem_of_getElem? (mem_liveRows.1 h)) column hcolumn

theorem ones_subset_columns (h : live ∈ (m.remainder struck).rows) :
    live.ones ⊆ (m.remainder struck).columns := by
  intro column hcolumn
  obtain ⟨hlive, havoids⟩ := mem_rows_remainder.1 h
  exact mem_columns_remainder.2
    ⟨bounded_of_mem hlive hcolumn, fun hstruck => havoids column hstruck hcolumn⟩

theorem nodup_candidates (struck : List Nat) (column : Nat) :
    ((m.remainder struck).candidates column).Nodup :=
  ((nodup_liveRows m.rows).filter _).filter _

@[simp] theorem remainder_nil (m : Matrix) : m.remainder [] = .ofMatrix m := by
  simp [remainder, Remainder.ofMatrix, liveRows]

theorem remainder_strike (m : Matrix) (struck : List Nat) (column : Nat) :
    (m.remainder struck).strike column = m.remainder (struck ++ [column]) := by
  simp only [remainder, Remainder.strike, List.filter_filter, Remainder.mk.injEq]
  refine ⟨List.filter_congr fun c _ => ?_, List.filter_congr fun live _ => ?_⟩
  · simp [bne, Bool.beq_eq_decide_eq, and_comm]
  · simp [or_imp, forall_and, and_comm]

theorem nodup_columns (m : Matrix) (struck : List Nat) : (m.remainder struck).columns.Nodup :=
  List.nodup_range.filter _

theorem columns_concat (m : Matrix) (struck : List Nat) (column : Nat) :
    (m.remainder (struck ++ [column])).columns = (m.remainder struck).columns.filter (· ≠ column) := by
  simp [remainder, List.filter_filter, and_comm]

/-- Selecting a row strikes out its columns, whichever of them comes first. -/
theorem remainder_select (struck : List Nat) (hcolumn : column ∈ live.ones) :
    (m.remainder struck).select live =
      m.remainder (struck ++ column :: Remainder.others live column) := by
  have hmem : ∀ c, c ∈ column :: Remainder.others live column ↔ c ∈ live.ones := by
    intro c
    rw [List.mem_cons, Remainder.mem_others]
    by_cases hc : c = column
    · simp [hc, hcolumn]
    · simp [hc]
  simp only [remainder, Remainder.select, List.filter_filter, Remainder.mk.injEq]
  refine ⟨List.filter_congr fun c _ => ?_, List.filter_congr fun other _ => ?_⟩
  · simp [hmem, -List.mem_cons, Bool.and_comm]
  · rw [Bool.eq_iff_iff]
    simp [hmem, -List.mem_cons, or_imp, forall_and, and_comm]

end Matrix

namespace Remainder

variable {row column : Nat} {live : LiveRow}

/-- In an ascending row, what comes after a column and then what comes before it. -/
theorem others_append {before after : List Nat}
    (h : (before ++ column :: after).Pairwise (· < ·)) :
    others { row, ones := before ++ column :: after } column = after ++ before := by
  obtain ⟨-, hafter, hbefore⟩ := List.pairwise_append.1 h
  have hlarge : ∀ d ∈ after, column < d := (List.pairwise_cons.1 hafter).1
  have hsmall : ∀ d ∈ before, d < column := fun d hd => hbefore d hd column List.mem_cons_self
  have hlater : (before ++ column :: after).filter (column < ·) = after := by
    have hnone : before.filter (column < ·) = [] :=
      List.filter_eq_nil_iff.2 fun d hd => by simpa using Nat.le_of_lt (hsmall d hd)
    have hall : after.filter (column < ·) = after :=
      List.filter_eq_self.2 fun d hd => by simpa using hlarge d hd
    rw [List.filter_append, List.filter_cons_of_neg (by simp), hnone, hall, List.nil_append]
  have hearlier : (before ++ column :: after).filter (· < column) = before := by
    have hnone : after.filter (· < column) = [] :=
      List.filter_eq_nil_iff.2 fun d hd => by simpa using Nat.le_of_lt (hlarge d hd)
    have hall : before.filter (· < column) = before :=
      List.filter_eq_self.2 fun d hd => by simpa using hsmall d hd
    rw [List.filter_append, List.filter_cons_of_neg (by simp), hnone, hall, List.append_nil]
  rw [others, hlater, hearlier]

theorem length_others (hascending : live.ones.Pairwise (· < ·)) (hcolumn : column ∈ live.ones) :
    (others live column).length = live.ones.length - 1 := by
  obtain ⟨row, ones⟩ := live
  obtain ⟨before, after, rfl⟩ := List.append_of_mem hcolumn
  rw [others_append hascending, List.length_append, List.length_append, List.length_cons]
  omega

theorem nodup_others (hascending : live.ones.Pairwise (· < ·)) : (others live column).Nodup := by
  have hnodup : live.ones.Nodup := hascending.imp Nat.ne_of_lt
  refine List.nodup_append.2 ⟨hnodup.filter _, hnodup.filter _, ?_⟩
  intro c hc d hd
  have hc := of_decide_eq_true (List.mem_filter.1 hc).2
  have hd := of_decide_eq_true (List.mem_filter.1 hd).2
  exact (Nat.ne_of_lt (Nat.lt_trans hd hc)).symm

end Remainder

end ExactCover
