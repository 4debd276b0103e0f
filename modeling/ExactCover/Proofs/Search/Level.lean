import ExactCover.Search.Outcome
import ExactCover.Proofs.Links.Selected
import ExactCover.Proofs.Search.Selector
import ExactCover.Proofs.Search.Tour
/-!
One level of the linked search, for both drivers: a column is covered, each of its rows can be
selected and taken back, and a completed selection can be read off and taken back as a whole.
-/

namespace ExactCover

/-- The cell of a selected row, in the column that it was selected for. -/
def Matrix.cellOf (m : Matrix) (pick : Selection) : Nat := m.place pick.column pick.live

namespace Links

variable {m : Matrix} {links branched final : Links} {covered : List Nat} {column : Nat}
  {live : LiveRow} {cells rows : List Nat}

/-- A column that has been covered last, with the links before and after. -/
structure Branch (m : Matrix) (covered : List Nat) (column : Nat) (links branched : Links) : Prop where
  mem_columns : column ∈ (m.remainder covered).columns
  covered : Covered m (covered ++ [column]) branched
  uncover : branched.uncover (column + 1) = .ok links

theorem Covered.branch (h : Covered m covered links)
    (hcolumn : column ∈ (m.remainder covered).columns) :
    ∃ branched, links.cover (column + 1) = .ok (branched, (m.remainder covered).cost column) ∧
      Branch m covered column links branched := by
  obtain ⟨hlt, hfresh⟩ := Matrix.mem_columns_remainder.1 hcolumn
  obtain ⟨branched, hcover, hcovered, huncover⟩ := h.cover hlt hfresh
  exact ⟨branched, hcover, hcolumn, hcovered, huncover⟩

namespace Branch

variable (h : Branch m covered column links branched)
include h

theorem lt_numColumns : column < m.numColumns := (Matrix.mem_columns_remainder.1 h.mem_columns).1

theorem loop : Loop branched.down branched.up (column + 1)
    (((m.remainder covered).candidates column).map (m.place column)) := by
  obtain ⟨hlt, hfresh⟩ := Matrix.mem_columns_remainder.1 h.mem_columns
  have hloop := h.covered.threaded.loop column (h.covered.numColumns_eq.symm ▸ hlt)
  rwa [Matrix.cellsLeft_concat_self hfresh, Matrix.cellsLeft_of_not_mem hfresh] at hloop

theorem place_ne (live : LiveRow) : m.place column live ≠ column + 1 :=
  (Nat.lt_of_le_of_lt h.lt_numColumns Matrix.lt_place).ne'

theorem node_place (hlive : live ∈ (m.remainder covered).candidates column) :
    branched.node (m.place column live) = .ok (branched.get (m.place column live)) := by
  obtain ⟨hmem, -, hones⟩ := Matrix.mem_candidates_remainder.1 hlive
  exact node_eq_ok (h.covered.place_lt hmem hones)

/-- A candidate can be selected, at the cost of striking its other columns out, and taken back. -/
theorem select (hlive : live ∈ (m.remainder covered).candidates column) :
    ∃ selected, branched.coverRow (m.place column live) = .ok (selected,
        (((m.remainder covered).strike column).costAll (Remainder.others live column))) ∧
      Covered m (covered ++ column :: Remainder.others live column) selected ∧
      selected.uncoverRow (m.place column live) = .ok branched := by
  obtain ⟨hmem, havoids, hones⟩ := Matrix.mem_candidates_remainder.1 hlive
  have hfresh : ∀ other ∈ Remainder.others live column, other ∉ covered ++ [column] := by
    intro other hother hstruck
    obtain ⟨hother, hne⟩ := Remainder.mem_others.1 hother
    rcases List.mem_append.1 hstruck with hstruck | hstruck
    · exact havoids other hstruck hother
    · exact hne (List.mem_singleton.1 hstruck)
  obtain ⟨selected, hcover, hcovered, huncover⟩ := h.covered.coverRow hmem hones hfresh
  rw [List.append_assoc, List.singleton_append] at hcovered
  rw [← Matrix.remainder_strike] at hcover
  exact ⟨selected, hcover, hcovered, huncover⟩

end Branch

/-- Selected cells, first one first, of the listed rows: they can be read off the final links, and
taking them back gives the first links. -/
structure Completes (m : Matrix) (links final : Links) (cells rows : List Nat) : Prop where
  laid : Laid m final
  selectedRows : final.selectedRows cells = .ok ⟨rows⟩
  deselect : cells.reverse.foldlM deselect final = .ok links

theorem Laid.selectedRows_cons (h : Laid m links) (hmem : live ∈ liveRows m.rows)
    (hones : column ∈ live.ones) (hrest : links.selectedRows cells = .ok ⟨rows⟩) :
    links.selectedRows (m.place column live :: cells) = .ok ⟨live.row :: rows⟩ := by
  have hrow : (links.get (m.place column live)).row = some live.row := h.row_place hmem hones
  obtain ⟨nodes, hnodes, hrows⟩ := bind_eq_ok_iff.1 hrest
  have hall : (m.place column live :: cells).mapM links.node =
      .ok (links.get (m.place column live) :: nodes) := by
    rw [List.mapM_cons, node_eq_ok (h.place_lt hmem hones), ok_bind, hnodes]
    rfl
  rw [Links.selectedRows, hall, ok_bind, List.filterMap_cons_some hrow]
  have hnodes_rows : nodes.filterMap Node.row = rows := by
    simpa [pure, Except.pure] using hrows
  rw [hnodes_rows]
  rfl

theorem Completes.nil (h : Laid m links) : Completes m links links [] [] := ⟨h, rfl, rfl⟩

theorem Completes.cons {selected : Links} (h : Completes m selected final cells rows)
    (hbranch : Branch m covered column links branched)
    (hlive : live ∈ (m.remainder covered).candidates column)
    (huncover : selected.uncoverRow (m.place column live) = .ok branched) :
    Completes m links final (m.place column live :: cells) (live.row :: rows) := by
  obtain ⟨hmem, -, hones⟩ := Matrix.mem_candidates_remainder.1 hlive
  refine ⟨h.laid, h.laid.selectedRows_cons hmem hones h.selectedRows, ?_⟩
  have hheader : (branched.get (m.place column live)).column = column + 1 :=
    hbranch.covered.header_place hmem hones
  rw [List.reverse_cons, List.foldlM_append, h.deselect, ok_bind, List.foldlM_cons,
    Links.deselect, huncover, ok_bind, hbranch.node_place hlive, ok_bind, hheader,
    hbranch.uncover]
  rfl

end Links

end ExactCover
