import ExactCover.Proofs.Links.Covered
/-!
What a walk lists. A walk along a loop lists the loop, so the lists of covered links can be read off
what is left of the matrix.
-/

namespace ExactCover

namespace Links

variable {m : Matrix} {links : Links} {covered l : List Nat} {column : Nat} {live : LiveRow}

/-- A walk along links that lead to its stop lists what it meets. -/
theorem walk_eq {next : Node → Nat} {start stop : Nat}
    (hleads : Leads (fun id => next (links.get id)) start l stop) (hne : stop ∉ l)
    (hlt : ∀ id ∈ l, id < links.size) {steps : Nat} (hsteps : l.length ≤ steps) :
    links.walk next stop steps (next (links.get start)) = .ok l := by
  induction l generalizing start steps with
  | nil =>
    have hend : next (links.get start) = stop := hleads
    rw [hend]
    cases steps <;> simp [walk]
  | cons id l ih =>
    have hfirst : next (links.get start) = id := hleads.1
    have hid : id ≠ stop := fun h => hne (h ▸ List.mem_cons_self)
    cases steps with
    | zero => simp at hsteps
    | succ steps =>
      have hrest := ih hleads.2 (fun hmem => hne (List.mem_cons_of_mem id hmem))
        (fun other hother => hlt other (List.mem_cons_of_mem id hother))
        (Nat.le_of_succ_le_succ hsteps)
      rw [hfirst, walk, if_neg hid, node_eq_ok (hlt id List.mem_cons_self), ok_bind, hrest, ok_bind]
      rfl

theorem ring_eq {next : Node → Nat} {prev : Nat → Nat} {start : Nat}
    (hloop : Loop (fun id => next (links.get id)) prev start l)
    (hlt : ∀ id ∈ start :: l, id < links.size) : links.ring next start = .ok l := by
  have hmem : ∀ id ∈ l, id < links.size := fun id hid => hlt id (List.mem_cons_of_mem start hid)
  rw [ring, node_eq_ok (hlt start List.mem_cons_self), ok_bind]
  exact walk_eq hloop.leads (List.nodup_cons.1 hloop.nodup).1 hmem
    (length_le_of_forall_lt hloop.nodup.of_cons hmem)

theorem Laid.rowCells_eq (h : Laid m links) (hlive : live ∈ liveRows m.rows)
    (hcolumn : column ∈ live.ones) :
    links.rowCells (m.place column live) = .ok (m.beside column live) := by
  apply ring_eq (h.row_loop hlive hcolumn)
  intro id hid
  rcases List.mem_cons.1 hid with rfl | hid
  · exact h.place_lt hlive hcolumn
  · exact h.beside_lt hlive id hid

namespace Covered

variable (h : Covered m covered links)
include h

theorem headers_lt : ∀ id ∈ root :: (m.remainder covered).columns.map (· + 1), id < links.size :=
  fun _ hid => Nat.lt_of_le_of_lt (h.le_numColumns hid) h.numColumns_lt

theorem columns_eq : links.columns = .ok ((m.remainder covered).columns.map (· + 1)) :=
  ring_eq h.headers h.headers_lt

theorem activeColumns_eq : links.activeColumns = .ok (m.remainder covered).columns := by
  rw [activeColumns, h.columns_eq, ok_bind]
  simp [Function.comp_def, pure, Except.pure]

theorem isSolved_eq : links.isSolved = .ok (m.remainder covered).columns.isEmpty := by
  have hleads := h.headers.leads
  rw [isSolved, node_eq_ok (h.headers_lt root List.mem_cons_self), ok_bind]
  change Except.ok (links.right root == root) = _
  cases hcolumns : (m.remainder covered).columns with
  | nil =>
    rw [hcolumns] at hleads
    simp [show links.right root = root from hleads]
  | cons column columns =>
    rw [hcolumns] at hleads
    rw [show links.right root = column + 1 from hleads.1]
    rfl

section Column

variable (hcolumn : column < m.numColumns)
include hcolumn

theorem columnCells_eq : links.columnCells (column + 1) = .ok (m.cellsLeft covered column) := by
  have hlt : column < links.numColumns := h.numColumns_eq.symm ▸ hcolumn
  exact ring_eq (h.threaded.loop column hlt) fun _ hid => h.threaded.lt_size hlt hid

theorem count_cellsLeft : links.count (column + 1) = .ok (m.cellsLeft covered column).length :=
  count_eq_ok (h.threaded.count column (h.numColumns_eq.symm ▸ hcolumn))

end Column

theorem count_eq (hcolumn : column ∈ (m.remainder covered).columns) :
    links.count (column + 1) = .ok ((m.remainder covered).candidates column).length := by
  obtain ⟨hlt, hfresh⟩ := Matrix.mem_columns_remainder.1 hcolumn
  rw [h.count_cellsLeft hlt, Matrix.cellsLeft_of_not_mem hfresh, List.length_map]

end Covered

end Links

end ExactCover
