import ExactCover.Matrix.Samples
import ExactCover.Proofs.Links.Walk
/-!
What covers mean. The columns that are left, and the cells below every header, can be told from the
matrix and the covered columns alone; for the columns that are left, the order of the covers makes
no difference.
-/

namespace ExactCover

namespace Matrix

/-- The rows that set a column and none of the struck ones, top to bottom. -/
def liveIn (m : Matrix) (struck : List Nat) (column : Nat) : List Nat :=
  (m.rowsAvoiding struck).filter fun row => m.isSet row column

variable {m : Matrix} {struck others : List Nat} {column : Nat}

theorem candidates_remainder (m : Matrix) (struck : List Nat) (column : Nat) :
    (m.remainder struck).candidates column = (m.liveIn struck column).map m.liveRow := by
  rw [Remainder.candidates, rows_remainder]
  exact filter_map_of fun row _ => m.contains_liveRow row column

theorem map_row_candidates (m : Matrix) (struck : List Nat) (column : Nat) :
    ((m.remainder struck).candidates column).map LiveRow.row = m.liveIn struck column := by
  rw [candidates_remainder, List.map_map]
  exact List.map_id _

/-- Which columns are struck out matters, and not in which order. -/
theorem liveIn_congr (h : ∀ other, other ∈ struck ↔ other ∈ others) (column : Nat) :
    m.liveIn struck column = m.liveIn others column := by
  have hrows : m.rowsAvoiding struck = m.rowsAvoiding others := by
    apply List.filter_congr
    intro row _
    rw [Bool.eq_iff_iff]
    simp [h]
  rw [liveIn, hrows, liveIn]

/-- Striking a column out costs one, and for each row that goes its other set entries. -/
theorem cost_eq_liveIn (m : Matrix) (struck : List Nat) (column : Nat) :
    (m.remainder struck).cost column =
      1 + ((m.liveIn struck column).map fun row => ((m.ones? row).getD []).length - 1).sum := by
  rw [Remainder.cost, candidates_remainder, List.map_map]
  rfl

end Matrix

namespace Links

variable {m : Matrix} {links : Links} {covered before after : List Nat} {column : Nat}

/-- Below the header of a column hang the cells of the listed rows, top to bottom, each with the tags
of its row and column, and the header records their number. -/
structure Holds (m : Matrix) (column : Nat) (rows : List Nat) (links : Links) : Prop where
  cells : links.columnCells (column + 1) =
    .ok (rows.map fun row => cellAt m.numColumns m.rows row column)
  count : links.count (column + 1) = .ok rows.length
  tags : ∀ row ∈ rows, ∃ node, links.node (cellAt m.numColumns m.rows row column) = .ok node ∧
    node.row = some row ∧ node.column = column + 1

theorem coverEach_append (links : Links) (before after : List Nat) :
    links.coverEach (before ++ after) = links.coverEach before >>= (·.coverEach after) :=
  List.foldlM_append

theorem coverEach_cons (links : Links) (column : Nat) (after : List Nat) :
    links.coverEach (column :: after) =
      links.cover (column + 1) >>= fun covered => covered.1.coverEach after := by
  rw [coverEach, List.foldlM_cons, bind_assoc]
  rfl

namespace Covered

/-- A column shows the rows that it had when its turn to be covered came, and a column that is not
covered those that are left. -/
theorem holds (h : Covered m covered links) (hcolumn : column < m.numColumns) :
    Holds m column (m.liveIn (covered.takeWhile (· ≠ column)) column) links := by
  refine ⟨?_, ?_, ?_⟩
  · rw [h.columnCells_eq hcolumn, ← Matrix.map_row_candidates, List.map_map]
    rfl
  · rw [h.count_cellsLeft hcolumn, ← Matrix.map_row_candidates, Matrix.cellsLeft, List.length_map,
      List.length_map]
  · intro row hrow
    rw [← Matrix.map_row_candidates] at hrow
    obtain ⟨live, hlive, rfl⟩ := List.mem_map.1 hrow
    obtain ⟨hmem, -, hones⟩ := Matrix.mem_candidates_remainder.1 hlive
    exact ⟨_, node_eq_ok (h.place_lt hmem hones), h.row_place hmem hones,
      h.header_place hmem hones⟩

theorem holds_of_not_mem (h : Covered m covered links) (hcolumn : column < m.numColumns)
    (hfresh : column ∉ covered) : Holds m column (m.liveIn covered column) links := by
  have hholds := h.holds hcolumn
  rwa [takeWhile_ne_eq_self hfresh] at hholds

theorem holds_of_split (h : Covered m (before ++ column :: after) links)
    (hcolumn : column < m.numColumns) (hfresh : column ∉ before) :
    Holds m column (m.liveIn before column) links := by
  have hholds := h.holds hcolumn
  rwa [takeWhile_ne_append hfresh] at hholds

end Covered

/-- Of a list of distinct columns, the cover of one of them with the covers before and after it. -/
theorem coverEach_split (hnodup : (before ++ column :: after).Nodup)
    (hlt : ∀ c ∈ before ++ column :: after, c < m.numColumns) :
    ∃ earlier later links, (ofMatrix m).coverEach before = .ok earlier ∧
      earlier.cover (column + 1) = .ok (later, (m.remainder before).cost column) ∧
      later.coverEach after = .ok links ∧
      (ofMatrix m).coverEach (before ++ column :: after) = .ok links := by
  obtain ⟨hnodup_before, hnodup_after, hdisjoint⟩ := List.nodup_append.1 hnodup
  have hfresh : column ∉ before := fun hmem => hdisjoint column hmem column List.mem_cons_self rfl
  have hcolumn : column < m.numColumns := hlt column (by simp)
  obtain ⟨earlier, hearlier, hcovered⟩ :=
    exists_coverEach m hnodup_before fun c hc => hlt c (List.mem_append_left _ hc)
  obtain ⟨later, hlater, hcovered', -⟩ := hcovered.cover hcolumn hfresh
  have hfresh_after : ∀ c ∈ after, c ∉ before ++ [column] := by
    intro c hc hmem
    rcases List.mem_append.1 hmem with hmem | hmem
    · exact hdisjoint c hmem c (List.mem_cons_of_mem column hc) rfl
    · exact (List.nodup_cons.1 hnodup_after).1 (List.mem_singleton.1 hmem ▸ hc)
  obtain ⟨links, hlinks, -⟩ := hcovered'.coverEach hnodup_after.of_cons
    (fun c hc => hlt c (by simp [hc])) hfresh_after
  refine ⟨earlier, later, links, hearlier, hlater, hlinks, ?_⟩
  rw [coverEach_append, hearlier, ok_bind, coverEach_cons, hlater, ok_bind]
  exact hlinks

/-- What covers mean: after distinct columns of a matrix have been covered, in any order, the links
show exactly what the matrix has left. -/
theorem coverEach_shows_remainder (m : Matrix) {covered : List Nat} (hnodup : covered.Nodup)
    (hlt : ∀ column ∈ covered, column < m.numColumns) :
    ∃ links, (ofMatrix m).coverEach covered = .ok links ∧
      links.activeColumns = .ok ((List.range m.numColumns).filter (· ∉ covered)) ∧
      (∃ solved, links.isSolved = .ok solved ∧
        (solved = true ↔ ∀ column < m.numColumns, column ∈ covered)) ∧
      (∀ column < m.numColumns, column ∉ covered →
        Holds m column (m.liveIn covered column) links) ∧
      (∀ before column after, covered = before ++ column :: after →
        Holds m column (m.liveIn before column) links ∧
        ∃ earlier later, (ofMatrix m).coverEach before = .ok earlier ∧
          earlier.cover (column + 1) = .ok (later, 1 + ((m.liveIn before column).map fun row =>
            ((m.ones? row).getD []).length - 1).sum) ∧
          later.coverEach after = .ok links) ∧
      ∀ others, others.Perm covered → ∃ links', (ofMatrix m).coverEach others = .ok links' ∧
        links'.activeColumns = links.activeColumns ∧
        ∀ column < m.numColumns, column ∉ covered →
          links'.columnCells (column + 1) = links.columnCells (column + 1) ∧
          links'.count (column + 1) = links.count (column + 1) := by
  obtain ⟨links, hlinks, h⟩ := exists_coverEach m hnodup hlt
  refine ⟨links, hlinks, h.activeColumns_eq, ⟨_, h.isSolved_eq, ?_⟩, fun column hcolumn hfresh => ?_,
    fun before column after hsplit => ?_, fun others hperm => ?_⟩
  · simp [Matrix.remainder]
  · exact h.holds_of_not_mem hcolumn hfresh
  · subst hsplit
    obtain ⟨earlier, later, links', hearlier, hcover, hlater, hall⟩ := coverEach_split hnodup hlt
    cases hlinks.symm.trans hall
    rw [Matrix.cost_eq_liveIn] at hcover
    refine ⟨h.holds_of_split (hlt column (by simp)) ?_, earlier, later, hearlier, hcover, hlater⟩
    exact fun hmem =>
      (List.nodup_append.1 hnodup).2.2 column hmem column List.mem_cons_self rfl
  · obtain ⟨links', hlinks', h'⟩ := exists_coverEach m (hperm.nodup_iff.2 hnodup)
      fun column hcolumn => hlt column (hperm.mem_iff.1 hcolumn)
    refine ⟨links', hlinks', ?_, fun column hcolumn hfresh => ?_⟩
    · rw [h'.activeColumns_eq, h.activeColumns_eq]
      simp [Matrix.remainder, hperm.mem_iff]
    · have hsame := Matrix.liveIn_congr (m := m) (fun _ => hperm.mem_iff) column
      have hholds := h.holds_of_not_mem hcolumn hfresh
      have hholds' := h'.holds_of_not_mem hcolumn fun hmem => hfresh (hperm.mem_iff.1 hmem)
      rw [hsame] at hholds'
      exact ⟨hholds'.cells.trans hholds.cells.symm, hholds'.count.trans hholds.count.symm⟩

/-- Columns 2 and 0 are covered: column 0 was left with row 0 when its turn came, and column 1 is left
with row 2. -/
theorem coverEach_shows_remainder_fourRows :
    [2, 0].Nodup ∧ (∀ column ∈ [2, 0], column < fourRows.numColumns) ∧
    ∃ links, (ofMatrix fourRows).coverEach [2, 0] = .ok links ∧ links.activeColumns = .ok [1] ∧
      Holds fourRows 1 [2] links ∧ Holds fourRows 0 [0] links ∧ Holds fourRows 2 [1] links := by
  have hlt : ∀ column ∈ [2, 0], column < fourRows.numColumns := by decide
  obtain ⟨links, hlinks, hactive, -, hleft, hcovered, -⟩ :=
    coverEach_shows_remainder fourRows (by decide) hlt
  exact ⟨by decide, hlt, links, hlinks, hactive, hleft 1 (by decide) (by decide),
    (hcovered [2] 0 [] rfl).1, (hcovered [] 2 [0] rfl).1⟩

end Links

end ExactCover
