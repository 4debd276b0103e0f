import Mathlib.Data.List.Nodup
import ExactCover.Matrix.Cover
import ExactCover.Solution
import ExactCover.Proofs.Search.Exact
/-!
The test of a listing of rows decides whether it is an exact cover, and the live rows of a matrix
carry the same exact covers as its row numbers.
-/

namespace ExactCover

theorem countP_eq_one_iff {α : Type} {p : α → Bool} {l : List α} (hnodup : l.Nodup) :
    l.countP p = 1 ↔ ∃ a ∈ l, p a = true ∧ ∀ b ∈ l, p b = true → b = a := by
  rw [List.countP_eq_length_filter, List.length_eq_one_iff]
  constructor
  · rintro ⟨a, ha⟩
    have hmem : ∀ b, b ∈ l.filter p ↔ b = a := fun b => by rw [ha, List.mem_singleton]
    obtain ⟨hl, hp⟩ := List.mem_filter.1 ((hmem a).2 rfl)
    exact ⟨a, hl, hp, fun b hb hpb => (hmem b).1 (List.mem_filter.2 ⟨hb, hpb⟩)⟩
  · rintro ⟨a, hl, hp, hall⟩
    refine ⟨a, ?_⟩
    have hsub : l.filter p ⊆ [a] := fun b hb =>
      List.mem_singleton.2 (hall b (List.mem_of_mem_filter hb) (List.mem_filter.1 hb).2)
    have hsup : [a] ⊆ l.filter p := fun b hb =>
      List.mem_singleton.1 hb ▸ List.mem_filter.2 ⟨hl, hp⟩
    have hperm : (l.filter p).Perm [a] :=
      (List.perm_ext_iff_of_nodup (hnodup.filter p) (List.nodup_singleton a)).2
        fun b => ⟨fun hb => hsub hb, fun hb => hsup hb⟩
    exact List.perm_singleton.1 hperm

namespace Matrix

variable {m : Matrix} {row column : Nat} {rows : List Nat} {live : LiveRow} {lives : List LiveRow}

theorem nodup_ones (m : Matrix) (row : Nat) : ((m.ones? row).getD []).Nodup := by
  cases hones : m.ones? row with
  | none => exact List.nodup_nil
  | some ones => exact (m.ascending ones (List.mem_of_getElem? hones)).imp Nat.ne_of_lt

theorem eq_of_row_eq {other : LiveRow} (hlive : live ∈ liveRows m.rows)
    (hother : other ∈ liveRows m.rows) (hrow : live.row = other.row) : live = other := by
  have hones := mem_liveRows.1 hlive
  rw [hrow, mem_liveRows.1 hother] at hones
  cases live
  cases other
  simp_all

theorem mem_liveRows_of_cover (h : (m.remainder []).IsExactCover lives) (hlive : live ∈ lives) :
    live ∈ liveRows m.rows := (mem_rows_remainder.1 (h.mem_rows live hlive)).1

theorem isExactCover_map_row (h : (m.remainder []).IsExactCover lives) :
    m.IsExactCover (lives.map LiveRow.row) where
  nodup := h.nodup.map_on fun _ hlive _ hother =>
    eq_of_row_eq (mem_liveRows_of_cover h hlive) (mem_liveRows_of_cover h hother)
  lt_numRows := by
    intro row hrow
    obtain ⟨live, hlive, rfl⟩ := List.mem_map.1 hrow
    exact (List.getElem?_eq_some_iff.1 (mem_liveRows.1 (mem_liveRows_of_cover h hlive))).1
  exists_unique := by
    intro column hcolumn
    obtain ⟨live, hlive, hset, hunique⟩ :=
      h.exists_unique column (mem_columns_remainder.2 ⟨hcolumn, List.not_mem_nil⟩)
    refine ⟨live.row, List.mem_map_of_mem hlive,
      (isSet_row (mem_liveRows_of_cover h hlive)).2 hset, ?_⟩
    intro row hrow hset'
    obtain ⟨other, hother, rfl⟩ := List.mem_map.1 hrow
    rw [isSet_row (mem_liveRows_of_cover h hother)] at hset'
    rw [hunique other hother hset']

theorem isExactCover_map_liveRow (h : m.IsExactCover rows) :
    (m.remainder []).IsExactCover (rows.map m.liveRow) where
  nodup := h.nodup.map fun _ _ heq => congrArg LiveRow.row heq
  mem_rows := by
    intro live hlive
    obtain ⟨row, hrow, rfl⟩ := List.mem_map.1 hlive
    exact mem_rows_remainder.2
      ⟨liveRow_mem_liveRows (h.lt_numRows row hrow), fun _ hc => absurd hc List.not_mem_nil⟩
  exists_unique := by
    intro column hcolumn
    obtain ⟨row, hrow, hset, hunique⟩ := h.exists_unique column (mem_columns_remainder.1 hcolumn).1
    refine ⟨m.liveRow row, List.mem_map_of_mem hrow, mem_ones_liveRow.2 hset, ?_⟩
    intro live hlive hset'
    obtain ⟨other, hother, rfl⟩ := List.mem_map.1 hlive
    rw [hunique other hother (mem_ones_liveRow.1 hset')]

theorem hasExactCover_iff : m.HasExactCover ↔ ∃ lives, (m.remainder []).IsExactCover lives := by
  constructor
  · rintro ⟨rows, h⟩
    exact ⟨_, isExactCover_map_liveRow h⟩
  · rintro ⟨lives, h⟩
    exact ⟨_, isExactCover_map_row h⟩

end Matrix

namespace Solution

variable {m : Matrix} {s : Solution}

theorem count_setColumns (s : Solution) (m : Matrix) (column : Nat) :
    (s.setColumns m).count column = s.rows.countP fun row => m.isSet row column := by
  rw [setColumns_eq]
  induction s.rows with
  | nil => rfl
  | cons row rows ih =>
    rw [List.flatMap_cons, List.count_append, ih, List.countP_cons, Nat.add_comm]
    congr 1
    rw [(m.nodup_ones row).count]
    exact if_congr Matrix.isSet_iff.symm rfl rfl

/-- The test decides whether the listed rows are an exact cover. -/
theorem verify_iff : s.verify m = true ↔ m.IsExactCover s.rows := by
  have hcolumns : (s.columnCounts m).all (· == 1) = true ↔
      ∀ column < m.numColumns, s.rows.countP (fun row => m.isSet row column) = 1 := by
    simp [columnCounts, tally_eq_map_count, count_setColumns]
  rw [verify, Bool.and_eq_true, Bool.and_eq_true, isDistinct_iff, hcolumns]
  constructor
  · rintro ⟨⟨hlt, hnodup⟩, hcounts⟩
    refine ⟨hnodup, by simpa using hlt, fun column hcolumn => ?_⟩
    exact (countP_eq_one_iff hnodup).1 (hcounts column hcolumn)
  · intro h
    refine ⟨⟨by simpa using h.lt_numRows, h.nodup⟩, fun column hcolumn => ?_⟩
    exact (countP_eq_one_iff h.nodup).2 (h.exists_unique column hcolumn)

end Solution

section Counts

variable {counts : Array Nat} {listed : List Nat} {m : Matrix} {rows : List Nat}

theorem size_addCounts (counts : Array Nat) (listed : List Nat) :
    (addCounts counts listed).size = counts.size := by
  induction listed generalizing counts with
  | nil => rfl
  | cons n listed ih =>
    have hstep : addCounts counts (n :: listed) = addCounts (counts.modify n (· + 1)) listed := rfl
    rw [hstep, ih, Array.size_modify]

theorem addCounts_append (counts : Array Nat) (listed more : List Nat) :
    addCounts counts (listed ++ more) = addCounts (addCounts counts listed) more :=
  List.foldl_append

theorem foldlM_countOne? (h : ∀ n ∈ listed, n < counts.size) :
    listed.foldlM countOne? counts = some (addCounts counts listed) := by
  induction listed generalizing counts with
  | nil => rfl
  | cons n listed ih =>
    obtain ⟨hn, hlisted⟩ := List.forall_mem_cons.1 h
    have hstep : countOne? counts n = some (counts.modify n (· + 1)) := if_pos hn
    rw [List.foldlM_cons, hstep]
    exact ih fun k hk => by rw [Array.size_modify]; exact hlisted k hk

theorem foldlM_ones? (hrows : ∀ row ∈ rows, row < m.numRows) (hsize : counts.size = m.numColumns) :
    rows.foldlM (fun counts row => do (← m.ones? row).foldlM countOne? counts) counts =
      some (addCounts counts (rows.flatMap fun row => (m.ones? row).getD [])) := by
  induction rows generalizing counts with
  | nil => rfl
  | cons row rows ih =>
    obtain ⟨hrow, hrows⟩ := List.forall_mem_cons.1 hrows
    have hones : m.ones? row = some m.rows[row] := List.getElem?_eq_getElem hrow
    have hcount : m.rows[row].foldlM countOne? counts = some (addCounts counts m.rows[row]) :=
      foldlM_countOne? fun column hcolumn => hsize ▸ m.bounded _ (List.getElem_mem hrow) column hcolumn
    have hrest := ih hrows ((size_addCounts counts m.rows[row]).trans hsize)
    rw [List.foldlM_cons, List.flatMap_cons, addCounts_append, hones, Option.getD_some]
    exact (congrArg (· >>= _) hcount).trans hrest

theorem flatMap_ones_filter (rows : List Nat) (m : Matrix) :
    (rows.filter (· < m.numRows)).flatMap (fun row => (m.ones? row).getD []) =
      rows.flatMap fun row => (m.ones? row).getD [] := by
  induction rows with
  | nil => rfl
  | cons row rows ih =>
    by_cases hrow : row < m.numRows
    · rw [List.filter_cons_of_pos (by simpa using hrow), List.flatMap_cons, List.flatMap_cons, ih]
    · have hones : m.ones? row = none := List.getElem?_eq_none (Nat.not_lt.1 hrow)
      rw [List.filter_cons_of_neg (by simpa using hrow), List.flatMap_cons, hones, ih]
      rfl

theorem areNew_iff {numRows : Nat} {seen : List Nat} : areNew numRows seen rows = true ↔
    (∀ row ∈ rows, row < numRows) ∧ rows.Nodup ∧ ∀ row ∈ rows, row ∉ seen := by
  induction rows generalizing seen with
  | nil => simp [areNew]
  | cons row rows ih =>
    have hnew : (!seen.contains row) = true ↔ row ∉ seen := by simp
    rw [areNew, Bool.and_eq_true, Bool.and_eq_true, decide_eq_true_eq, hnew, ih, List.forall_mem_cons,
      List.nodup_cons, List.forall_mem_cons]
    constructor
    · rintro ⟨⟨hrow, hnew⟩, hrows, hnodup, hrest⟩
      exact ⟨⟨hrow, hrows⟩, ⟨fun hmem => hrest row hmem List.mem_cons_self, hnodup⟩, hnew,
        fun other hother hmem => hrest other hother (List.mem_cons_of_mem row hmem)⟩
    · rintro ⟨⟨hrow, hrows⟩, ⟨hnot, hnodup⟩, hnew, hrest⟩
      refine ⟨⟨hrow, hnew⟩, hrows, hnodup, fun other hother hmem => ?_⟩
      rcases List.mem_cons.1 hmem with rfl | hmem
      · exact hnot hother
      · exact hrest other hother hmem

end Counts

theorem Matrix.isExactCover_iff_existsUnique {m : Matrix} {rows : List Nat} : m.IsExactCover rows ↔
    (∀ row ∈ rows, row < m.numRows) ∧ rows.Nodup ∧
      ∀ column < m.numColumns, ∃! row, row ∈ rows ∧ m.isSet row column = true := by
  have hunique : ∀ column, (∃! row, row ∈ rows ∧ m.isSet row column = true) ↔
      ∃ row ∈ rows, m.isSet row column = true ∧
        ∀ other ∈ rows, m.isSet other column = true → other = row := by
    intro column
    simp only [ExistsUnique, and_imp, and_assoc]
  simp only [hunique]
  exact ⟨fun h => ⟨h.lt_numRows, h.nodup, h.exists_unique⟩, fun ⟨hlt, hnodup, hexists⟩ =>
    ⟨hnodup, hlt, hexists⟩⟩

/-- A row that sets nothing may be listed or not. -/
theorem Matrix.isExactCover_cons_iff {m : Matrix} {row : Nat} {rows : List Nat} (hrow : row < m.numRows)
    (hnot : row ∉ rows) (hempty : ∀ column < m.numColumns, m.isSet row column = false) :
    m.IsExactCover (row :: rows) ↔ m.IsExactCover rows := by
  constructor
  · intro h
    refine ⟨(List.nodup_cons.1 h.nodup).2, (List.forall_mem_cons.1 h.lt_numRows).2, ?_⟩
    intro column hcolumn
    obtain ⟨chosen, hchosen, hset, hunique⟩ := h.exists_unique column hcolumn
    have hne : chosen ≠ row := by
      rintro rfl
      rw [hempty column hcolumn] at hset
      cases hset
    exact ⟨chosen, List.mem_of_ne_of_mem hne hchosen, hset,
      fun other hother => hunique other (List.mem_cons_of_mem row hother)⟩
  · intro h
    refine ⟨List.nodup_cons.2 ⟨hnot, h.nodup⟩, List.forall_mem_cons.2 ⟨hrow, h.lt_numRows⟩, ?_⟩
    intro column hcolumn
    obtain ⟨chosen, hchosen, hset, hunique⟩ := h.exists_unique column hcolumn
    refine ⟨chosen, List.mem_cons_of_mem row hchosen, hset, List.forall_mem_cons.2 ⟨?_, hunique⟩⟩
    intro hset'
    rw [hempty column hcolumn] at hset'
    cases hset'

namespace Solution

variable {m : Matrix} {s : Solution}

/-- Counting never leaves the matrix or the counts. -/
theorem columnCounts?_eq (s : Solution) (m : Matrix) : s.columnCounts? m = some (s.columnCounts m) := by
  have hrows : ∀ row ∈ s.rows.filter (· < m.numRows), row < m.numRows :=
    fun row hrow => of_decide_eq_true (List.mem_filter.1 hrow).2
  have hcounts := foldlM_ones? hrows (Array.size_replicate (n := m.numColumns) (v := 0))
  rw [flatMap_ones_filter, ← setColumns_eq] at hcounts
  rw [columnCounts?]
  exact congrArg (· >>= _) hcounts

theorem length_columnCounts (s : Solution) (m : Matrix) : (s.columnCounts m).length = m.numColumns := by
  rw [columnCounts, tally_eq_map_count, List.length_map, List.length_range]

theorem getElem?_columnCounts (s : Solution) (m : Matrix) {column : Nat} (h : column < m.numColumns) :
    (s.columnCounts m)[column]? =
      some (s.rows.countP fun row => row < m.numRows && m.isSet row column) := by
  rw [columnCounts, tally_eq_map_count, List.getElem?_map, List.getElem?_range h, Option.map_some,
    count_setColumns]
  refine congrArg some (List.countP_congr fun row _ => ?_)
  rw [Bool.and_eq_true, decide_eq_true_eq]
  exact ⟨fun hset => ⟨(Matrix.lt_of_isSet hset).1, hset⟩, And.right⟩

theorem verify?_eq (s : Solution) (m : Matrix) : s.verify? m = some (s.verify m) := by
  have hnew : areNew m.numRows [] s.rows = (s.rows.all (· < m.numRows) && s.isDistinct) := by
    rw [Bool.eq_iff_iff, areNew_iff, Bool.and_eq_true, isDistinct_iff]
    simp
  rw [verify?, verify, hnew, columnCounts?_eq]
  cases s.rows.all (· < m.numRows) && s.isDistinct <;> rfl

theorem verify_of_perm {others : List Nat} (h : s.rows.Perm others) :
    verify ⟨others⟩ m = s.verify m := by
  rw [Bool.eq_iff_iff, verify_iff, verify_iff]
  exact ⟨fun hcover => hcover.perm h.symm, fun hcover => hcover.perm h⟩

theorem verify_insert {row : Nat} {before after : List Nat} (hrow : row < m.numRows)
    (hnot : row ∉ before ++ after) (hempty : ∀ column < m.numColumns, m.isSet row column = false) :
    verify ⟨before ++ row :: after⟩ m = verify ⟨before ++ after⟩ m := by
  have hperm : (before ++ row :: after).Perm (row :: (before ++ after)) := List.perm_middle
  rw [← verify_of_perm (s := ⟨before ++ row :: after⟩) hperm, Bool.eq_iff_iff, verify_iff, verify_iff]
  exact Matrix.isExactCover_cons_iff hrow hnot hempty

/-- The test is that for exact covers. Its counts are the numbers of listed rows that set each column,
taken without leaving the matrix, and it accepts the rows that are distinct rows of the matrix of which
exactly one sets each column, whatever their order and whether an empty row is among them. -/
theorem verify_decides_isExactCover (s : Solution) (m : Matrix) :
    s.columnCounts? m = some (s.columnCounts m) ∧
    s.verify? m = some (s.verify m) ∧
    (s.columnCounts m).length = m.numColumns ∧
    (∀ column < m.numColumns, (s.columnCounts m)[column]? =
      some (s.rows.countP fun row => row < m.numRows && m.isSet row column)) ∧
    (s.verify m = true ↔ (∀ row ∈ s.rows, row < m.numRows) ∧ s.rows.Nodup ∧
      ∀ column < m.numColumns, ∃! row, row ∈ s.rows ∧ m.isSet row column = true) ∧
    (∀ others, s.rows.Perm others → verify ⟨others⟩ m = s.verify m) ∧
    ∀ before after row, s.rows = before ++ after → row < m.numRows → row ∉ s.rows →
      (∀ column < m.numColumns, m.isSet row column = false) →
      verify ⟨before ++ row :: after⟩ m = s.verify m := by
  refine ⟨columnCounts?_eq s m, verify?_eq s m, length_columnCounts s m,
    fun column => getElem?_columnCounts s m, ?_, fun others => verify_of_perm, ?_⟩
  · rw [verify_iff, Matrix.isExactCover_iff_existsUnique]
  · intro before after row hrows hrow hnot hempty
    obtain ⟨rows⟩ := s
    obtain rfl : rows = before ++ after := hrows
    exact verify_insert hrow hnot hempty

end Solution

end ExactCover
