import ExactCover.Matrix.Samples
import ExactCover.Search.Selector
import ExactCover.Proofs.Links.Walk
import ExactCover.Proofs.Search.Plain
/-!
The selectors read the links only where these show what is left of the matrix: they pick the header
of the column that the plain search picks.
-/

namespace ExactCover

variable {f : Nat → Nat} {l : List Nat}

/-- Going through the headers of columns with a best one at hand finds the first of the least. -/
theorem Selector.fewest_eq {links : Links} {columns : List Nat} {best : Nat}
    (hcount : ∀ column ∈ best :: columns, links.count (column + 1) = .ok (f column)) :
    ∃ x, fewest links (best + 1) (f best) (columns.map (· + 1)) = .ok (x + 1) ∧
      FirstLeast f (best :: columns) x := by
  induction columns generalizing best with
  | nil => exact ⟨best, rfl, [], [], rfl, by simp, by simp⟩
  | cons column columns ih =>
    rw [List.map_cons, fewest]
    split
    -- Nothing is less than zero, so the scan may stop early.
    case isTrue hzero => exact ⟨best, rfl, [], column :: columns, rfl, by simp, by simp [hzero]⟩
    case isFalse =>
      rw [hcount column (by simp), ok_bind]
      split
      case isTrue hlt =>
        obtain ⟨x, heq, hleast⟩ := ih fun c hc => hcount c (List.mem_cons_of_mem best hc)
        exact ⟨x, heq, hleast.cons_of_lt hlt⟩
      case isFalse hle =>
        have hcount' : ∀ c ∈ best :: columns, links.count (c + 1) = .ok (f c) := by
          intro c hc
          refine hcount c ?_
          rcases List.mem_cons.1 hc with rfl | hc
          · exact List.mem_cons_self
          · exact List.mem_cons_of_mem best (List.mem_cons_of_mem column hc)
        obtain ⟨x, heq, hleast⟩ := ih hcount'
        exact ⟨x, heq, hleast.insert_of_le (Nat.le_of_not_lt hle)⟩

namespace Links.Covered

variable {m : Matrix} {links : Links} {covered : List Nat} {column : Nat}

/-- The selector picks the header of the column that the plain search picks. -/
theorem pick_eq (h : Covered m covered links) (selector : Selector) :
    selector.pick links = .ok (((m.remainder covered).pick selector).map (· + 1)) := by
  cases selector with
  | leftmost =>
    have hleads := h.headers.leads
    rw [Selector.pick, node_eq_ok (h.headers_lt root List.mem_cons_self), ok_bind, Remainder.pick]
    change Except.ok (if links.right root = root then none else some (links.right root)) = _
    cases hcolumns : (m.remainder covered).columns with
    | nil =>
      rw [hcolumns] at hleads
      simp [show links.right root = root from hleads]
    | cons column columns =>
      rw [hcolumns] at hleads
      rw [show links.right root = column + 1 from hleads.1]
      rfl
  | minimumRemaining =>
    rw [Selector.pick, h.columns_eq, ok_bind, Remainder.pick]
    cases hcolumns : (m.remainder covered).columns with
    | nil => rfl
    | cons column columns =>
      have hcount : ∀ c ∈ column :: columns,
          links.count (c + 1) = .ok ((m.remainder covered).candidates c).length := fun c hc =>
        h.count_eq (hcolumns ▸ hc)
      obtain ⟨x, heq, hleast⟩ := Selector.fewest_eq hcount
      simp only [List.map_cons]
      rw [hcount column List.mem_cons_self, ok_bind, heq, ok_bind, hleast.find?_eq]
      rfl

end Links.Covered

namespace Remainder

variable {p : Remainder} {column : Nat}

theorem firstLeast_of_pick (h : p.pick .minimumRemaining = some column) :
    FirstLeast (fun c => (p.candidates c).length) p.columns column := by
  rw [pick] at h
  cases hcolumns : p.columns with
  | nil =>
    rw [hcolumns] at h
    cases h
  | cons first columns =>
    obtain ⟨x, hx⟩ := exists_firstLeast (fun c => (p.candidates c).length) first columns
    rw [hcolumns, hx.find?_eq] at h
    cases h
    exact hx

end Remainder

namespace Links

/-- Whatever columns are covered, in whatever order: nothing is picked when no column is left, and
otherwise the header with the fewest cells hanging below it, the first of several. -/
theorem pick_fewest_cells (m : Matrix) {columns : List Nat} (hnodup : columns.Nodup)
    (hlt : ∀ column ∈ columns, column < m.numColumns) :
    ∃ links headers picked, (ofMatrix m).coverEach columns = .ok links ∧
      links.columns = .ok headers ∧
      (∀ header, header ∈ headers ↔ ∃ column < m.numColumns, column ∉ columns ∧ header = column + 1) ∧
      Selector.minimumRemaining.pick links = .ok picked ∧
      (picked = none ↔ headers = []) ∧
      ∀ header, picked = some header → header ∈ headers ∧
        ∃ cells, links.columnCells header = .ok cells ∧
          ∀ other ∈ headers, ∃ others, links.columnCells other = .ok others ∧
            cells.length ≤ others.length ∧ (others.length = cells.length → header ≤ other) ∧
            (others = [] → cells = []) := by
  obtain ⟨links, hcover, hcovered⟩ := exists_coverEach m hnodup hlt
  refine ⟨links, _, _, hcover, hcovered.columns_eq, fun header => ?_, hcovered.pick_eq _, ?_, ?_⟩
  · simp [Matrix.mem_columns_remainder, and_assoc, eq_comm]
  · rw [Option.map_eq_none_iff, List.map_eq_nil_iff]
    refine ⟨Remainder.columns_eq_nil, fun hnil => ?_⟩
    rw [Remainder.pick, hnil]
    rfl
  · intro header hheader
    obtain ⟨column, hpick, rfl⟩ := Option.map_eq_some_iff.1 hheader
    have hleast := Remainder.firstLeast_of_pick hpick
    have hcells : ∀ c ∈ (m.remainder columns).columns, links.columnCells (c + 1) =
        .ok (((m.remainder columns).candidates c).map (m.place c)) := by
      intro c hc
      obtain ⟨hlt, hfresh⟩ := Matrix.mem_columns_remainder.1 hc
      rw [hcovered.columnCells_eq hlt, Matrix.cellsLeft_of_not_mem hfresh]
    refine ⟨List.mem_map_of_mem hleast.mem, _, hcells column hleast.mem, fun other hother => ?_⟩
    obtain ⟨c, hc, rfl⟩ := List.mem_map.1 hother
    have hle := hleast.le hc
    refine ⟨_, hcells c hc, by simpa using hle, fun heq => ?_, fun hnil => ?_⟩
    · have hascending : (m.remainder columns).columns.Pairwise (· < ·) :=
        List.pairwise_lt_range.filter _
      exact Nat.succ_le_succ (hleast.le_of_eq hascending hc (by simpa using heq))
    · rw [List.map_eq_nil_iff] at hnil ⊢
      simpa [hnil] using hle

/-- Without column 1 and its rows, the columns 0 and 2 have one cell each. -/
theorem pick_fewest_cells_fourRows :
    [1].Nodup ∧ (∀ column ∈ [1], column < fourRows.numColumns) ∧
    ∃ links headers picked, (ofMatrix fourRows).coverEach [1] = .ok links ∧
      links.columns = .ok headers ∧
      (∀ header, header ∈ headers ↔
        ∃ column < fourRows.numColumns, column ∉ [1] ∧ header = column + 1) ∧
      Selector.minimumRemaining.pick links = .ok picked ∧
      (picked = none ↔ headers = []) ∧
      ∀ header, picked = some header → header ∈ headers ∧
        ∃ cells, links.columnCells header = .ok cells ∧
          ∀ other ∈ headers, ∃ others, links.columnCells other = .ok others ∧
            cells.length ≤ others.length ∧ (others.length = cells.length → header ≤ other) ∧
            (others = [] → cells = []) :=
  ⟨by decide, by decide, pick_fewest_cells fourRows (by decide) (by decide)⟩

end Links

end ExactCover
