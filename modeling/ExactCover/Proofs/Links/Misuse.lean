import ExactCover.Matrix.Samples
import ExactCover.Proofs.Links.Safe
/-!
Moves made at will: repeated, unmatched, on the root, on headers, on cells of rows that have gone.
They may leave lists that do not close and counts that count nothing, but not the order of the links,
and on that every further move can rely.
-/

namespace ExactCover

namespace Links

variable {m : Matrix} {links links' : Links} {column cell : Nat}

theorem Laid.node_lt_of_move (h : Laid m links) {move : Move} {result : Links × Option Nat}
    (hmove : links.move move = .ok result) : move.node < links.size := by
  have hheader : ∀ id, links.isHeader id = true → id < links.size := by
    intro id hid
    have hle := (h.isHeader_iff.1 hid).2
    have hsize := h.size_eq
    omega
  have hin : ∀ id node, links.node id = .ok node → id < links.size := by
    intro id node hnode
    by_contra hge
    have hnone : links.nodes[id]? = none := Array.getElem?_eq_none (Nat.le_of_not_lt hge)
    rw [Links.node, hnone] at hnode
    cases hnode
  cases move with
  | cover id =>
    refine hheader id ?_
    by_contra hid
    rw [move, cover, Bool.eq_false_iff.2 hid] at hmove
    cases hmove
  | uncover id =>
    refine hheader id ?_
    by_contra hid
    rw [move, uncover, Bool.eq_false_iff.2 hid] at hmove
    cases hmove
  | coverRow id =>
    obtain ⟨_, hcover, _⟩ := bind_eq_ok_iff.1 hmove
    obtain ⟨node, hnode, _⟩ := bind_eq_ok_iff.1 hcover
    exact hin id node hnode
  | uncoverRow id =>
    obtain ⟨_, huncover, _⟩ := bind_eq_ok_iff.1 hmove
    obtain ⟨node, hnode, _⟩ := bind_eq_ok_iff.1 huncover
    exact hin id node hnode

def moveEach (links : Links) (moves : List Move) : Except Fault Links :=
  moves.foldlM (fun links move => do
    let (links, _) ← links.move move
    return links) links

theorem OneWay.moveEach (h : OneWay m links) {moves : List Move}
    (hrun : links.moveEach moves = .ok links') : OneWay m links' := by
  refine foldlM_keeps (fun links h move _ links' hstep => ?_) h hrun
  obtain ⟨result, hmove, hnext⟩ := bind_eq_ok_iff.1 hstep
  cases hnext
  exact (h.move_safe (h.node_lt_of_move hmove)).of_ok hmove

/-- A cell that hangs below a header: a node behind the headers that is tagged with it. -/
def HasCell (links : Links) (header cell : Nat) : Prop :=
  links.numColumns < cell ∧ cell < links.size ∧ links.header cell = header

/-- What moves cannot break, whatever they are made on: the arena and its tags, the rows, the column
of every vertical link, and the order of the links in the header list and below the headers. -/
structure Intact (first links : Links) : Prop where
  size_eq : links.size = first.size
  numColumns_eq : links.numColumns = first.numColumns
  header_eq : ∀ id, links.header id = first.header id
  row_eq : ∀ id, links.row id = first.row id
  left_eq : ∀ id, first.numColumns < id → links.left id = first.left id
  right_eq : ∀ id, first.numColumns < id → links.right id = first.right id
  up_root : links.up root = root
  down_root : links.down root = root
  right_header : ∀ header, links.isHeader header = true → links.right header = root ∨
    (links.isHeader (links.right header) = true ∧ header < links.right header)
  left_header : ∀ header, links.isHeader header = true → links.left header = root ∨
    (links.isHeader (links.left header) = true ∧ links.left header < header)
  down_cell : ∀ header cell, links.HasCell header cell → links.down cell = header ∨
    (links.HasCell header (links.down cell) ∧ cell < links.down cell)
  up_cell : ∀ header cell, links.HasCell header cell → links.up cell = header ∨
    (links.HasCell header (links.up cell) ∧ links.up cell < cell)
  down_header : ∀ header, links.isHeader header = true → links.down header = header ∨
    links.HasCell header (links.down header)
  up_header : ∀ header, links.isHeader header = true → links.up header = header ∨
    links.HasCell header (links.up header)

theorem Laid.hasCell (h : Laid m links) (hcell : IsCell m column cell) :
    links.HasCell (column + 1) cell := by
  obtain ⟨-, hlarge, hlt, hheader⟩ := h.lt_of_isCell hcell
  exact ⟨h.numColumns_eq.symm ▸ hlarge, hlt, hheader⟩

theorem Laid.exists_of_hasCell (h : Laid m links) {header : Nat} (hcell : links.HasCell header cell) :
    ∃ column, header = column + 1 ∧ IsCell m column cell := by
  obtain ⟨hlarge, hlt, rfl⟩ := hcell
  obtain ⟨column, hcell⟩ := h.exists_isCell (h.numColumns_eq ▸ hlarge) hlt
  exact ⟨column, (h.lt_of_isCell hcell).2.2.2, hcell⟩

theorem OneWay.intact {first : Links} (hfirst : Laid m first) (h : OneWay m links) :
    Intact first links where
  size_eq := hfirst.size_same h.toLaid
  numColumns_eq := h.numColumns_eq.trans hfirst.numColumns_eq.symm
  header_eq := fun id => (hfirst.tags_same h.toLaid id).1
  row_eq := fun id => (hfirst.tags_same h.toLaid id).2
  left_eq := fun id hid => (hfirst.rows_same h.toLaid (hfirst.numColumns_eq ▸ hid)).1
  right_eq := fun id hid => (hfirst.rows_same h.toLaid (hfirst.numColumns_eq ▸ hid)).2
  up_root := h.up_root
  down_root := h.down_root
  right_header := by
    intro header hheader
    obtain ⟨hne, hle⟩ := h.isHeader_iff.1 hheader
    refine (h.right header hle).imp_right fun hlt => ⟨h.isHeader_iff.2 ?_, hlt⟩
    exact ⟨Nat.ne_zero_of_lt hlt, h.right_le header hle⟩
  left_header := by
    intro header hheader
    obtain ⟨hne, hle⟩ := h.isHeader_iff.1 hheader
    refine or_iff_not_imp_left.2 fun hroot => ⟨h.isHeader_iff.2 ⟨hroot, h.left_le header hle⟩, ?_⟩
    exact (h.left header hle).resolve_left hne
  down_cell := by
    intro header cell hhangs
    obtain ⟨column, rfl, hcell⟩ := h.exists_of_hasCell hhangs
    exact (h.down_cases hhangs.2.1 hhangs.2.2).imp_right fun hnext => ⟨h.hasCell hnext.1, hnext.2⟩
  up_cell := by
    intro header cell hhangs
    obtain ⟨column, rfl, hcell⟩ := h.exists_of_hasCell hhangs
    exact (h.up_cases hcell).imp_right fun hnext => ⟨h.hasCell hnext.1, hnext.2⟩
  down_header := by
    intro header hheader
    obtain ⟨hne, hle⟩ := h.isHeader_iff.1 hheader
    obtain ⟨column, rfl⟩ := Nat.exists_eq_succ_of_ne_zero hne
    exact (h.down_header_cases hle).imp_right h.hasCell
  up_header := by
    intro header hheader
    obtain ⟨hne, hle⟩ := h.isHeader_iff.1 hheader
    obtain ⟨column, rfl⟩ := Nat.exists_eq_succ_of_ne_zero hne
    exact (h.up_header_cases hle).imp_right h.hasCell

/-- Whatever moves have been made on the links of a matrix, on whatever nodes and in whatever order:
what moves cannot break still stands, and one more move succeeds unless it is a misuse. No index is out
of range and no walk is endless. -/
theorem moveEach_intact (m : Matrix) (moves : List Move)
    (hrun : (ofMatrix m).moveEach moves = .ok links) :
    Intact (ofMatrix m) links ∧ ∀ move, move.node < links.size →
      (∃ result, links.move move = .ok result) ∨
        ∃ fault, links.move move = .error fault ∧ fault.IsMisuse links.numColumns := by
  have h : OneWay m links := (oneWay_ofMatrix m).moveEach hrun
  refine ⟨h.intact (oneWay_ofMatrix m).toLaid, fun move hnode => ?_⟩
  have hsafe := h.move_safe hnode
  cases hmove : links.move move with
  | ok result => exact .inl ⟨result, rfl⟩
  | error fault =>
    rw [hmove] at hsafe
    exact .inr ⟨fault, rfl, h.numColumns_eq.symm ▸ hsafe⟩

/-- A header and a row put back that were never taken out, all headers covered from the root, and one
of them put back out of turn: the lists do not close any more. -/
theorem moveEach_intact_fourRows : ∃ links,
    (ofMatrix fourRows).moveEach [.uncover 3, .uncoverRow 5, .coverRow 0, .uncover 1] = .ok links ∧
    links.check ≠ .ok none ∧ Intact (ofMatrix fourRows) links ∧ ∀ move, move.node < links.size →
      (∃ result, links.move move = .ok result) ∨
        ∃ fault, links.move move = .error fault ∧ fault.IsMisuse links.numColumns := by
  have hfound : ((ofMatrix fourRows).moveEach
      [.uncover 3, .uncoverRow 5, .coverRow 0, .uncover 1] >>= check) =
      .ok (some (.wrongCount 1 2 3)) := by decide +kernel
  obtain ⟨links, hrun, hcheck⟩ := bind_eq_ok_iff.1 hfound
  refine ⟨links, hrun, ?_, moveEach_intact fourRows _ hrun⟩
  rw [hcheck]
  exact fun h => Option.some_ne_none _ (Except.ok.inj h)

-- Covered a second time, the first column takes the same cells out of the others once more.
example : (ofMatrix fourRows).moveEach [.cover 1, .cover 1] = .error (.countUnderflow 3) := by
  decide +kernel

end Links

end ExactCover
