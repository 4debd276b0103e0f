import ExactCover.Links.Check
import ExactCover.Proofs.Links.Covered
/-!
What the check asks of a structure, said of its lists as wholes: the headers form a loop around the
root, the cells of each of them a loop around the header, and every cell carries the tags of its
place. The check finds nothing to report in such a structure, and covered links are one.
-/

namespace ExactCover

namespace Links

variable {m : Matrix} {links : Links} {covered headers : List Nat} {cells : Nat → List Nat}
  {header cell above : Nat}

/-- A cell with the tags of its column and row, linked both ways in its row. -/
structure Hangs (links : Links) (header cell : Nat) : Prop where
  header_eq : links.header cell = header
  row_ne_none : links.row cell ≠ none
  left_right : links.left (links.right cell) = cell
  right_left : links.right (links.left cell) = cell
  row_right : links.row (links.right cell) = links.row cell

/-- All that can be reached from the root, as lists: the headers and the cells of each of them. -/
structure WellLinked (headers : List Nat) (cells : Nat → List Nat) (links : Links) : Prop where
  root_row : links.row root = none
  root_header : links.header root = root
  root_up : links.up root = root
  root_down : links.down root = root
  ring : Loop links.right links.left root headers
  isHeader : ∀ header ∈ headers, links.isHeader header = true
  column : ∀ header ∈ headers, Loop links.down links.up header (cells header)
  count : ∀ header ∈ headers, links.counts[header]? = some (cells header).length
  hangs : ∀ header ∈ headers, ∀ cell ∈ cells header, links.Hangs header cell

/-- No link of a node leads out of the arena. -/
structure Inside (links : Links) : Prop where
  left_lt : ∀ id < links.size, links.left id < links.size
  right_lt : ∀ id < links.size, links.right id < links.size
  up_lt : ∀ id < links.size, links.up id < links.size
  down_lt : ∀ id < links.size, links.down id < links.size

theorem Closed.inside (h : links.Closed) : links.Inside :=
  ⟨h.left_lt, h.right_lt, h.up_lt, h.down_lt⟩

section Check

variable (hinside : links.Inside)
include hinside

theorem checkCell_eq (hcell : cell < links.size) (habove : above < links.size)
    (h : links.Hangs header cell) (hup : links.up cell = above) (hdown : links.down above = cell) :
    links.checkCell header above cell = .ok none := by
  have hleft : (links.get cell).left < links.size := hinside.left_lt cell hcell
  have hright : (links.get cell).right < links.size := hinside.right_lt cell hcell
  have hheader : (links.get cell).column = header := h.header_eq
  have hrow : (links.get cell).row ≠ none := h.row_ne_none
  have hup : (links.get cell).up = above := hup
  have hdown : (links.get above).down = cell := hdown
  have hafter : (links.get (links.get cell).right).left = cell := h.left_right
  have hbefore : (links.get (links.get cell).left).right = cell := h.right_left
  have hsame : (links.get (links.get cell).right).row = (links.get cell).row := h.row_right
  rw [checkCell]
  simp only [node_eq_ok hcell, node_eq_ok habove, node_eq_ok hleft, node_eq_ok hright, ok_bind, hheader,
    hrow, hup, hdown, hafter, hbefore, hsame, ne_eq, not_true_eq_false, if_false]
  rfl

/-- The rest of a column, below the cells that have been counted so far. -/
theorem checkCells_eq {rest : List Nat} {steps found : Nat} (habove : above < links.size)
    (hheader : header < links.size)
    (hleads : Leads links.down above rest header) (hne : header ∉ rest)
    (hback : ∀ id ∈ above :: rest, links.up (links.down id) = id)
    (hhangs : ∀ cell ∈ rest, links.Hangs header cell) (hsteps : rest.length ≤ steps)
    (hcount : links.counts[header]? = some (found + rest.length)) :
    links.checkCells header steps found above (links.down above) = .ok none := by
  induction rest generalizing above steps found with
  | nil =>
    have hend : links.down above = header := hleads
    have htop : (links.get header).up = above := hend ▸ hback above List.mem_cons_self
    rw [hend, checkCells.eq_def]
    simp only [if_true, node_eq_ok hheader, ok_bind, htop, count_eq_ok hcount, List.length_nil,
      Nat.add_zero, ne_eq, not_true_eq_false, if_false]
    rfl
  | cons cell rest ih =>
    have hfirst : links.down above = cell := hleads.1
    have hcell : cell < links.size := hfirst ▸ hinside.down_lt above habove
    have hup : links.up cell = above := hfirst ▸ hback above List.mem_cons_self
    have hcell_ne : cell ≠ header := fun heq => hne (heq ▸ List.mem_cons_self)
    have hchecked : links.checkCell header above cell = .ok none :=
      checkCell_eq hinside hcell habove (hhangs cell List.mem_cons_self) hup hfirst
    cases steps with
    | zero => simp at hsteps
    | succ steps =>
      rw [hfirst, checkCells.eq_def]
      simp only [hcell_ne, if_false, hchecked, ok_bind, node_eq_ok hcell]
      apply ih hcell hleads.2 (fun hmem => hne (List.mem_cons_of_mem cell hmem))
      · exact fun id hid => hback id (List.mem_cons_of_mem above hid)
      · exact fun id hid => hhangs id (List.mem_cons_of_mem cell hid)
      · exact Nat.le_of_succ_le_succ hsteps
      · rwa [List.length_cons, Nat.add_comm rest.length, ← Nat.add_assoc] at hcount

theorem checkColumn_eq (hheader : header < links.size)
    (hcolumn : Loop links.down links.up header (cells header))
    (hcount : links.counts[header]? = some (cells header).length)
    (hhangs : ∀ cell ∈ cells header, links.Hangs header cell) :
    links.checkCells header links.size 0 header (links.down header) = .ok none := by
  have hlt : ∀ cell ∈ cells header, cell < links.size :=
    hcolumn.leads.forall_mem hheader hinside.down_lt
  apply checkCells_eq hinside hheader hheader hcolumn.leads (List.nodup_cons.1 hcolumn.nodup).1
    hcolumn.prev_next hhangs
  · exact length_le_of_forall_lt hcolumn.nodup.of_cons hlt
  · rwa [Nat.zero_add]

variable (hnumColumns : links.numColumns < links.size)
include hnumColumns

theorem checkHeaders_eq {rest : List Nat} {steps before : Nat} (hbefore : before < links.size)
    (hleads : Leads links.right before rest root) (hne : root ∉ rest)
    (hback : ∀ id ∈ before :: rest, links.left (links.right id) = id)
    (hheader : ∀ header ∈ rest, links.isHeader header = true)
    (hcolumn : ∀ header ∈ rest, Loop links.down links.up header (cells header))
    (hcount : ∀ header ∈ rest, links.counts[header]? = some (cells header).length)
    (hhangs : ∀ header ∈ rest, ∀ cell ∈ cells header, links.Hangs header cell)
    (hsteps : rest.length ≤ steps) :
    links.checkHeaders steps before (links.right before) = .ok none := by
  induction rest generalizing before steps with
  | nil =>
    have hroot : root < links.size := Nat.lt_of_le_of_lt (Nat.zero_le _) hnumColumns
    have hend : links.right before = root := hleads
    have hlast : (links.get root).left = before := hend ▸ hback before List.mem_cons_self
    rw [hend, checkHeaders.eq_def]
    simp only [if_true, node_eq_ok hroot, ok_bind, hlast, ne_eq, not_true_eq_false, if_false]
    rfl
  | cons header rest ih =>
    have hmem : header ∈ header :: rest := List.mem_cons_self
    have hfirst : links.right before = header := hleads.1
    have hlt : header < links.size := hfirst ▸ hinside.right_lt before hbefore
    have hne_root : header ≠ root := fun heq => hne (heq ▸ hmem)
    have hleft : (links.get header).left = before := hfirst ▸ hback before List.mem_cons_self
    have hright : (links.get before).right = header := hfirst
    have hchecked : links.checkCells header links.size 0 header (links.get header).down = .ok none :=
      checkColumn_eq hinside hlt (hcolumn header hmem) (hcount header hmem) (hhangs header hmem)
    cases steps with
    | zero => simp at hsteps
    | succ steps =>
      rw [hfirst, checkHeaders.eq_def]
      simp only [hne_root, hheader header hmem, Bool.not_true, Bool.false_eq_true, if_false, node_eq_ok hlt,
        node_eq_ok hbefore, ok_bind, hleft, hright, hchecked, ne_eq, not_true_eq_false]
      apply ih hlt hleads.2 (fun h => hne (List.mem_cons_of_mem header h))
      · exact fun id hid => hback id (List.mem_cons_of_mem before hid)
      · exact fun id hid => hheader id (List.mem_cons_of_mem header hid)
      · exact fun id hid => hcolumn id (List.mem_cons_of_mem header hid)
      · exact fun id hid => hcount id (List.mem_cons_of_mem header hid)
      · exact fun id hid => hhangs id (List.mem_cons_of_mem header hid)
      · exact Nat.le_of_succ_le_succ hsteps

/-- The check has nothing to report where all lists are loops and all tags in place. -/
theorem WellLinked.check_eq (h : WellLinked headers cells links) : links.check = .ok none := by
  have hroot : root < links.size := Nat.lt_of_le_of_lt (Nat.zero_le _) hnumColumns
  have hrow : (links.get root).row = none := h.root_row
  have hheader : (links.get root).column = root := h.root_header
  have hup : (links.get root).up = root := h.root_up
  have hdown : (links.get root).down = root := h.root_down
  have hlength : (root :: headers).length ≤ links.numColumns + 1 := by
    apply length_le_of_forall_lt h.ring.nodup
    intro id hid
    rcases List.mem_cons.1 hid with rfl | hid
    · exact Nat.zero_lt_succ _
    · have hisHeader := h.isHeader id hid
      simp only [Links.isHeader, Bool.and_eq_true, decide_eq_true_eq] at hisHeader
      exact Nat.lt_succ_of_le hisHeader.2
  rw [check]
  simp only [node_eq_ok hroot, ok_bind, hrow, hheader, hup, hdown, ne_eq, not_true_eq_false, or_self,
    if_false]
  exact checkHeaders_eq hinside hnumColumns hroot h.ring.leads
    (List.nodup_cons.1 h.ring.nodup).1 h.ring.prev_next h.isHeader h.column h.count h.hangs
    (Nat.le_of_succ_le_succ hlength)

end Check

namespace Laid

variable {column id : Nat} {live : LiveRow} (h : Laid m links)
include h

theorem exists_place (hlarge : m.numColumns < id) (hid : id < links.size) :
    ∃ live ∈ liveRows m.rows, ∃ column ∈ live.ones, m.place column live = id := by
  rw [h.frame.size_eq, h.numColumns_eq] at hid
  obtain ⟨row, ones, column, hones, hcolumn, hat⟩ :=
    exists_cellAt (fun ones hmem => (m.ascending ones hmem).imp Nat.ne_of_lt) hlarge hid
  exact ⟨{ row, ones }, mem_liveRows.2 hones, column, hcolumn, hat⟩

theorem eq_root_of_header (hid : id < links.size) (hheader : links.header id = root) : id = root := by
  by_cases hle : id ≤ m.numColumns
  · rwa [h.frame.header_of_le id (h.numColumns_eq.symm ▸ hle)] at hheader
  · obtain ⟨live, hlive, column, hcolumn, rfl⟩ := h.exists_place (Nat.lt_of_not_le hle) hid
    rw [h.header_place hlive hcolumn] at hheader
    cases hheader

theorem header_root : links.header root = root := h.frame.header_of_le root (Nat.zero_le _)

theorem root_lt : root < links.size := Nat.lt_of_le_of_lt (Nat.zero_le _) h.numColumns_lt

/-- A vertical link of the root stays in the root's column, where no other node is. -/
theorem up_root : links.up root = root :=
  h.eq_root_of_header (h.closed.up_lt root h.root_lt) ((h.closed.header_up root).trans h.header_root)

theorem down_root : links.down root = root :=
  h.eq_root_of_header (h.closed.down_lt root h.root_lt)
    ((h.closed.header_down root).trans h.header_root)

theorem hangs (hlive : live ∈ liveRows m.rows) (hcolumn : column ∈ live.ones) :
    links.Hangs (column + 1) (m.place column live) := by
  have hloop := h.row_loop hlive hcolumn
  have hmem : m.place column live ∈ m.place column live :: m.beside column live :=
    List.mem_cons_self
  refine ⟨h.header_place hlive hcolumn, ?_, hloop.prev_next _ hmem, hloop.next_prev hmem, ?_⟩
  · rw [h.row_place hlive hcolumn]
    exact Option.some_ne_none _
  · rw [h.row_place hlive hcolumn]
    rcases List.mem_cons.1 (hloop.next_mem hmem) with hnext | hnext
    · rw [hnext, h.row_place hlive hcolumn]
    · obtain ⟨other, hother, hnext⟩ := List.mem_map.1 hnext
      rw [← hnext, h.row_place hlive (Remainder.mem_others.1 hother).1]

end Laid

namespace Covered

theorem wellLinked (h : Covered m covered links) :
    WellLinked ((m.remainder covered).columns.map (· + 1))
      (fun header => m.cellsLeft covered (header - 1)) links := by
  have hactive : ∀ header ∈ (m.remainder covered).columns.map (· + 1),
      ∃ column < links.numColumns, column + 1 = header := by
    intro header hheader
    obtain ⟨column, hcolumn, rfl⟩ := List.mem_map.1 hheader
    exact ⟨column, h.numColumns_eq.symm ▸ (Matrix.mem_columns_remainder.1 hcolumn).1, rfl⟩
  refine ⟨h.frame.row_of_le root (Nat.zero_le _), h.header_root, h.up_root, h.down_root, h.headers,
    ?_, ?_, ?_, ?_⟩
  all_goals
    intro header hheader
    obtain ⟨column, hcolumn, rfl⟩ := hactive header hheader
  · exact h.isHeader_eq (h.numColumns_eq ▸ hcolumn)
  · exact h.threaded.loop column hcolumn
  · exact h.threaded.count column hcolumn
  · intro cell hcell
    obtain ⟨live, hlive, rfl⟩ := List.mem_map.1 hcell
    obtain ⟨hmem, -, hones⟩ := Matrix.mem_candidates_remainder.1 hlive
    exact h.hangs hmem hones

/-- Whatever columns are covered, the check has nothing to report. -/
theorem check_eq (h : Covered m covered links) : links.check = .ok none :=
  h.wellLinked.check_eq h.closed.inside h.numColumns_lt

end Covered

end Links

end ExactCover
