import Mathlib.Data.List.TakeWhile
import ExactCover.Proofs.Links.Layout
/-!
The cells that covers take out of the columns, told by the matrix alone. A covered column keeps the
cells that it had when its turn came; every other column keeps the rows that avoid all covered ones.
-/

namespace ExactCover

theorem takeWhile_ne_eq_self {l : List Nat} {a : Nat} (h : a ∉ l) : l.takeWhile (· ≠ a) = l := by
  refine List.takeWhile_eq_self_iff.2 fun c hc => decide_eq_true ?_
  rintro rfl
  exact h hc

theorem takeWhile_ne_append {l : List Nat} {a : Nat} (h : a ∉ l) (more : List Nat) :
    (l ++ a :: more).takeWhile (· ≠ a) = l := by
  have hne : ∀ c ∈ l, decide (c ≠ a) = true := by
    intro c hc
    refine decide_eq_true ?_
    rintro rfl
    exact h hc
  rw [List.takeWhile_append_of_pos hne]
  simp

namespace Matrix

/-- The place of a row's entry in a column. -/
def place (m : Matrix) (column : Nat) (live : LiveRow) : Nat :=
  Links.cellAt m.numColumns m.rows live.row column

/-- The places of a row's other entries, rightwards from a column on. -/
def beside (m : Matrix) (column : Nat) (live : LiveRow) : List Nat :=
  (Remainder.others live column).map fun other => m.place other live

/-- The cells that covering one more column takes out. -/
def struckCells (m : Matrix) (covered : List Nat) (column : Nat) : List Nat :=
  ((m.remainder covered).candidates column).flatMap (m.beside column)

/-- The cells below a header once the listed columns have been covered, in this order. -/
def cellsLeft (m : Matrix) (covered : List Nat) (column : Nat) : List Nat :=
  ((m.remainder (covered.takeWhile (· ≠ column))).candidates column).map (m.place column)

variable {m : Matrix} {covered : List Nat} {column other : Nat} {live live' : LiveRow}

theorem lt_place : m.numColumns < m.place column live := Links.lt_cellAt

theorem place_inj (hlive : live ∈ liveRows m.rows) (hcolumn : column ∈ live.ones)
    (hlive' : live' ∈ liveRows m.rows) (hother : other ∈ live'.ones)
    (heq : m.place column live = m.place other live') : live = live' ∧ column = other := by
  have hrow := mem_liveRows.1 hlive
  have hrow' := mem_liveRows.1 hlive'
  obtain ⟨hsame, hcolumns⟩ := Links.cellAt_inj hrow hcolumn hrow' hother heq
  refine ⟨?_, hcolumns⟩
  rw [← hsame, hrow] at hrow'
  cases live
  cases live'
  simp_all

theorem nodup_beside (hlive : live ∈ liveRows m.rows) : (m.beside column live).Nodup := by
  refine (Remainder.nodup_others (ascending_of_mem hlive)).map_on ?_
  intro c hc d hd heq
  exact (place_inj hlive (Remainder.mem_others.1 hc).1 hlive (Remainder.mem_others.1 hd).1 heq).2

theorem mem_struckCells (hlive : live ∈ liveRows m.rows) (hother : other ∈ live.ones) :
    m.place other live ∈ m.struckCells covered column ↔
      live ∈ (m.remainder covered).candidates column ∧ other ≠ column := by
  simp only [struckCells, beside, List.mem_flatMap, List.mem_map]
  constructor
  · rintro ⟨live', hlive', other', hother', heq⟩
    have hmem := (mem_candidates_remainder.1 hlive').1
    have hones := Remainder.mem_others.1 hother'
    obtain ⟨rfl, rfl⟩ := place_inj hmem hones.1 hlive hother heq
    exact ⟨hlive', hones.2⟩
  · rintro ⟨hcandidate, hne⟩
    exact ⟨live, hcandidate, other, Remainder.mem_others.2 ⟨hother, hne⟩, rfl⟩

theorem exists_of_mem_struckCells {cell : Nat} (h : cell ∈ m.struckCells covered column) :
    ∃ live ∈ (m.remainder covered).candidates column, ∃ other ∈ live.ones,
      other ≠ column ∧ cell = m.place other live := by
  obtain ⟨live, hlive, hcell⟩ := List.mem_flatMap.1 h
  obtain ⟨other, hother, rfl⟩ := List.mem_map.1 hcell
  obtain ⟨hones, hne⟩ := Remainder.mem_others.1 hother
  exact ⟨live, hlive, other, hones, hne, rfl⟩

theorem nodup_struckCells (m : Matrix) (covered : List Nat) (column : Nat) :
    (m.struckCells covered column).Nodup := by
  refine List.nodup_flatMap.2 ⟨fun live hlive => ?_, ?_⟩
  · exact nodup_beside (mem_candidates_remainder.1 hlive).1
  · refine (nodup_candidates covered column).imp_of_mem ?_
    intro live live' hlive hlive' hne cell hcell hcell'
    obtain ⟨c, hc, rfl⟩ := List.mem_map.1 hcell
    obtain ⟨d, hd, heq⟩ := List.mem_map.1 hcell'
    have hmem := (mem_candidates_remainder.1 hlive).1
    have hmem' := (mem_candidates_remainder.1 hlive').1
    exact hne (place_inj hmem (Remainder.mem_others.1 hc).1 hmem'
      (Remainder.mem_others.1 hd).1 heq.symm).1

/-- The cost of striking a column out counts the column and the cells taken out with it. -/
theorem cost_eq (m : Matrix) (covered : List Nat) (column : Nat) :
    (m.remainder covered).cost column = 1 + (m.struckCells covered column).length := by
  rw [Remainder.cost, struckCells, List.length_flatMap]
  congr 2
  refine List.map_congr_left fun live hlive => ?_
  obtain ⟨hmem, -, hcolumn⟩ := mem_candidates_remainder.1 hlive
  rw [beside, List.length_map, Remainder.length_others (ascending_of_mem hmem) hcolumn]

theorem cellsLeft_of_not_mem (h : column ∉ covered) : m.cellsLeft covered column =
    ((m.remainder covered).candidates column).map (m.place column) := by
  rw [cellsLeft, takeWhile_ne_eq_self h]

theorem cellsLeft_append_of_mem (h : column ∈ covered) (more : List Nat) :
    m.cellsLeft (covered ++ more) column = m.cellsLeft covered column := by
  obtain ⟨before, after, rfl, hfresh⟩ := List.eq_append_cons_of_mem h
  rw [cellsLeft, cellsLeft, List.append_assoc, List.cons_append, takeWhile_ne_append hfresh,
    takeWhile_ne_append hfresh]

theorem cellsLeft_concat_self (hfresh : column ∉ covered) :
    m.cellsLeft (covered ++ [column]) column = m.cellsLeft covered column := by
  rw [cellsLeft, takeWhile_ne_append hfresh, cellsLeft, takeWhile_ne_eq_self hfresh]

/-- The rows that are left in another column are those without a cell taken out. -/
theorem filter_candidates (hne : other ≠ column) :
    ((m.remainder covered).candidates other).filter
        (fun live => m.place other live ∉ m.struckCells covered column) =
      (m.remainder (covered ++ [column])).candidates other := by
  rw [← remainder_strike, Remainder.candidates, Remainder.candidates, Remainder.strike,
    List.filter_filter, List.filter_filter]
  refine List.filter_congr fun live hlive => ?_
  by_cases hones : other ∈ live.ones
  · have hmem := (mem_rows_remainder.1 hlive).1
    simp [mem_struckCells hmem hones, hne, hones, Remainder.candidates, hlive]
  · simp [hones]

theorem filter_cellsLeft (hfresh : column ∉ covered) (other : Nat) :
    (m.cellsLeft covered other).filter (· ∉ m.struckCells covered column) =
      m.cellsLeft (covered ++ [column]) other := by
  by_cases hother : other ∈ covered ++ [column]
  -- A column that is covered loses nothing more: no row that is left sets it.
  · have hsame : m.cellsLeft (covered ++ [column]) other = m.cellsLeft covered other := by
      rcases List.mem_append.1 hother with hmem | hmem
      · exact cellsLeft_append_of_mem hmem [column]
      · rw [List.mem_singleton.1 hmem, cellsLeft_concat_self hfresh]
    rw [hsame]
    refine List.filter_eq_self.2 fun cell hcell => decide_eq_true ?_
    obtain ⟨live, hlive, rfl⟩ := List.mem_map.1 hcell
    obtain ⟨hmem, -, hones⟩ := mem_candidates_remainder.1 hlive
    rw [mem_struckCells hmem hones]
    rintro ⟨hcandidate, hne⟩
    have hcovered : other ∈ covered := by simpa [hne] using hother
    exact (mem_candidates_remainder.1 hcandidate).2.1 other hcovered hones
  · obtain ⟨hcovered, hne⟩ : other ∉ covered ∧ other ≠ column := by simpa using hother
    rw [cellsLeft_of_not_mem hcovered, cellsLeft_of_not_mem hother, List.filter_map,
      ← filter_candidates hne]
    rfl

end Matrix

end ExactCover
