import ExactCover.Proofs.Links.Check
/-!
What is left of the order when moves are made at will. A list need not close any more, nor read the
same in both directions, and the counts are off; but every link still leads onwards in the order in
which the nodes were added, or back to where its list begins. That is what a change of one link keeps,
because it only leads past a node or stops at one.
-/

namespace ExactCover

/-- A step that leads onwards, or back to the base. -/
def Onward (base a b : Nat) : Prop := b = base ∨ a < b

section Onward

variable {next prev : Nat → Nat} {base a b c stop : Nat} {l : List Nat}

theorem Onward.trans (h : Onward base a b) (hb : b ≠ base) (h' : Onward base b c) :
    Onward base a c := by
  have hab : a < b := h.resolve_left hb
  exact h'.imp_right (Nat.lt_trans hab)

theorem Leads.onward (h : Leads next a l stop) (hascending : (a :: l).Pairwise (· < ·)) :
    ∀ c ∈ a :: l, Onward stop c (next c) := by
  induction l generalizing a with
  | nil =>
    intro c hc
    rw [List.mem_singleton.1 hc]
    exact .inl h
  | cons x l ih =>
    obtain ⟨hfirst, hrest⟩ := List.pairwise_cons.1 hascending
    intro c hc
    rcases List.mem_cons.1 hc with rfl | hc
    · exact .inr (h.1 ▸ hfirst x List.mem_cons_self)
    · exact ih h.2 hrest c hc

theorem Loop.onward (h : Loop next prev a l) (hascending : (a :: l).Pairwise (· < ·)) :
    ∀ c ∈ a :: l, Onward a c (next c) ∧ Onward a (prev c) c := by
  intro c hc
  have hback := h.leads.onward hascending (prev c) (h.prev_mem hc)
  rw [h.next_prev hc] at hback
  exact ⟨h.leads.onward hascending c hc, hback⟩

end Onward

namespace Links

variable {m : Matrix} {links links' : Links} {cell column header id toDown toUp toRight toLeft : Nat}
  {change : Nat → Nat}

/-- The arena of a matrix with links that lead one way: the headers rightwards, the cells of a column
downwards, and both the opposite way back. -/
structure OneWay (m : Matrix) (links : Links) : Prop extends Laid m links where
  right_le : ∀ id ≤ m.numColumns, links.right id ≤ m.numColumns
  left_le : ∀ id ≤ m.numColumns, links.left id ≤ m.numColumns
  right : ∀ id ≤ m.numColumns, Onward root id (links.right id)
  left : ∀ id ≤ m.numColumns, Onward root (links.left id) id
  down : ∀ id, Onward (links.header id) id (links.down id)
  up : ∀ id, Onward (links.header id) (links.up id) id

namespace OneWay

section Vertical

variable (h : OneWay m links) (hcell : cell < links.size)
include h hcell

theorem rejoined (hclosed : (links.rejoined cell toDown toUp change).Closed)
    (hdown : Onward (links.header cell) (links.up cell) toDown)
    (hup : Onward (links.header cell) toUp (links.down cell)) :
    OneWay m (links.rejoined cell toDown toUp change) := by
  have hsame := @sameRows_rejoined _ _ toDown toUp change h.closed hcell
  refine ⟨h.toLaid.of_sameRows hsame hclosed, ?_, ?_, ?_, ?_, ?_, ?_⟩
  · exact fun id hid => hsame.right_eq id ▸ h.right_le id hid
  · exact fun id hid => hsame.left_eq id ▸ h.left_le id hid
  · exact fun id hid => hsame.right_eq id ▸ h.right id hid
  · exact fun id hid => hsame.left_eq id ▸ h.left id hid
  · intro id
    rw [hsame.header_eq, down_rejoined h.closed hcell]
    split
    case isTrue heq =>
      rw [heq, h.closed.header_up]
      exact hdown
    case isFalse => exact h.down id
  · intro id
    rw [hsame.header_eq, up_rejoined h.closed hcell]
    split
    case isTrue heq =>
      rw [heq, h.closed.header_down]
      exact hup
    case isFalse => exact h.up id

theorem unlinked (hne : cell ≠ links.header cell) : OneWay m (links.unlinked cell) := by
  have hpast : Onward (links.header cell) (links.up cell) (links.down cell) :=
    (h.up cell).trans hne (h.down cell)
  exact h.rejoined hcell (closed_unlinked h.closed hcell) hpast hpast

theorem relinked : OneWay m (links.relinked cell) :=
  h.rejoined hcell (closed_relinked h.closed hcell) (h.up cell) (h.down cell)

end Vertical

section Horizontal

variable (h : OneWay m links) (hheader : header ≤ m.numColumns)
include h hheader

theorem relaid (hright : toRight ≤ m.numColumns) (hleft : toLeft ≤ m.numColumns)
    (hpast : Onward root (links.left header) toRight)
    (hback : Onward root toLeft (links.right header)) :
    OneWay m (links.relaid header toRight toLeft) := by
  have hn := h.numColumns_eq
  have hsize := h.numColumns_lt
  have hlt : header < links.size := by omega
  have hsame := @sameTags_relaid _ _ toRight toLeft h.closed hlt
  have hget := @get_relaid _ _ toRight toLeft h.closed hlt
  have hleft_le := h.left_le header hheader
  have hright_le := h.right_le header hheader
  have hlaid : Laid m (links.relaid header toRight toLeft) :=
    h.toLaid.relaid hlt (by omega) (by omega) (by omega) (by omega)
  refine ⟨hlaid, ?_, ?_, ?_, ?_, ?_, ?_⟩
  · intro id hid
    rw [right_relaid h.closed hlt]
    split
    · exact hright
    · exact h.right_le id hid
  · intro id hid
    rw [left_relaid h.closed hlt]
    split
    · exact hleft
    · exact h.left_le id hid
  · intro id hid
    rw [right_relaid h.closed hlt]
    split
    case isTrue heq => exact heq ▸ hpast
    case isFalse => exact h.right id hid
  · intro id hid
    rw [left_relaid h.closed hlt]
    split
    case isTrue heq => exact heq ▸ hback
    case isFalse => exact h.left id hid
  · intro id
    rw [hsame.header_eq, Links.down, hget]
    exact h.down id
  · intro id
    rw [hsame.header_eq, Links.up, hget]
    exact h.up id

theorem hidden (hne : header ≠ root) : OneWay m (links.hidden header) := by
  have hpast : Onward root (links.left header) (links.right header) :=
    (h.left header hheader).trans hne (h.right header hheader)
  exact h.relaid hheader (h.right_le header hheader) (h.left_le header hheader) hpast hpast

theorem shown : OneWay m (links.shown header) :=
  h.relaid hheader hheader hheader (h.left header hheader) (h.right header hheader)

end Horizontal

end OneWay

def IsCell (m : Matrix) (column id : Nat) : Prop :=
  ∃ live ∈ liveRows m.rows, column ∈ live.ones ∧ m.place column live = id

namespace Laid

variable (h : Laid m links)
include h

theorem size_eq : links.size = m.numColumns + 1 + m.numOnes := by
  rw [h.frame.size_eq, h.numColumns_eq]
  rfl

theorem exists_isCell (hlarge : m.numColumns < id) (hid : id < links.size) :
    ∃ column, IsCell m column id := by
  obtain ⟨live, hlive, column, hones, rfl⟩ := h.exists_place hlarge hid
  exact ⟨column, live, hlive, hones, rfl⟩

theorem lt_of_isCell (hcell : IsCell m column id) :
    column < m.numColumns ∧ m.numColumns < id ∧ id < links.size ∧ links.header id = column + 1 := by
  obtain ⟨live, hlive, hcolumn, rfl⟩ := hcell
  exact ⟨Matrix.bounded_of_mem hlive hcolumn, Matrix.lt_place, h.place_lt hlive hcolumn,
    h.header_place hlive hcolumn⟩

theorem header_le (hid : id < links.size) : links.header id ≤ m.numColumns := by
  by_cases hle : id ≤ m.numColumns
  · rw [h.frame.header_of_le id (h.numColumns_eq.symm ▸ hle)]
    exact hle
  · obtain ⟨column, hcell⟩ := h.exists_isCell (Nat.lt_of_not_le hle) hid
    obtain ⟨hcolumn, -, -, hheader⟩ := h.lt_of_isCell hcell
    rw [hheader]
    exact hcolumn

theorem isCell_of_header (hid : id < links.size) (hheader : links.header id = column + 1) :
    id = column + 1 ∨ IsCell m column id := by
  by_cases hle : id ≤ m.numColumns
  · exact .inl ((h.frame.header_of_le id (h.numColumns_eq.symm ▸ hle)).symm.trans hheader)
  · obtain ⟨other, hcell⟩ := h.exists_isCell (Nat.lt_of_not_le hle) hid
    have hsame : other + 1 = column + 1 := (h.lt_of_isCell hcell).2.2.2.symm.trans hheader
    cases hsame
    exact .inr hcell

theorem slot_lt (hcolumn : column < m.numColumns) : column + 1 < links.counts.size := by
  rw [h.frame.counts_size, h.numColumns_eq]
  exact Nat.succ_lt_succ hcolumn

theorem isHeader_iff : links.isHeader id = true ↔ id ≠ root ∧ id ≤ m.numColumns := by
  rw [← h.numColumns_eq]
  simp [isHeader]

section Same

variable (h' : Laid m links')
include h'

theorem size_same : links'.size = links.size := h'.size_eq.trans h.size_eq.symm

theorem tags_same (id : Nat) : links'.header id = links.header id ∧ links'.row id = links.row id := by
  have hsize := h.size_same h'
  by_cases hid : id < links.size
  · by_cases hle : id ≤ m.numColumns
    · have hn := h.numColumns_eq.symm ▸ hle
      have hn' := h'.numColumns_eq.symm ▸ hle
      rw [h.frame.header_of_le id hn, h'.frame.header_of_le id hn', h.frame.row_of_le id hn,
        h'.frame.row_of_le id hn']
      exact ⟨rfl, rfl⟩
    · obtain ⟨live, hlive, column, hones, rfl⟩ := h.exists_place (Nat.lt_of_not_le hle) hid
      rw [h.header_place hlive hones, h'.header_place hlive hones, h.row_place hlive hones,
        h'.row_place hlive hones]
      exact ⟨rfl, rfl⟩
  · rw [Links.header, Links.header, row, row, get_of_size_le hid, get_of_size_le (hsize ▸ hid)]
    exact ⟨rfl, rfl⟩

theorem rows_same (hlarge : m.numColumns < id) :
    links'.left id = links.left id ∧ links'.right id = links.right id := by
  have hsize := h.size_same h'
  by_cases hid : id < links.size
  · obtain ⟨live, hlive, column, hones, rfl⟩ := h.exists_place hlarge hid
    have hloop := h.row_loop hlive hones
    have hloop' := h'.row_loop hlive hones
    exact ⟨hloop'.symm.leads.first_eq hloop.symm.leads, hloop'.leads.first_eq hloop.leads⟩
  · rw [left, left, right, right, get_of_size_le hid, get_of_size_le (hsize ▸ hid)]
    exact ⟨rfl, rfl⟩

end Same

end Laid

namespace OneWay

variable (h : OneWay m links)
include h

/-- Down from a node of a column there is its header or a cell further down. -/
theorem down_cases (hid : id < links.size) (hheader : links.header id = column + 1) :
    links.down id = column + 1 ∨ (IsCell m column (links.down id) ∧ id < links.down id) := by
  have honward := h.down id
  rw [hheader] at honward
  have hcell := h.isCell_of_header (h.closed.down_lt id hid) ((h.closed.header_down id).trans hheader)
  rcases hcell with heq | hcell
  · exact .inl heq
  · exact honward.imp_right fun hlt => ⟨hcell, hlt⟩

theorem up_cases (hcell : IsCell m column id) :
    links.up id = column + 1 ∨ (IsCell m column (links.up id) ∧ links.up id < id) := by
  obtain ⟨hcolumn, hlarge, hid, hheader⟩ := h.lt_of_isCell hcell
  have honward := h.up id
  rw [hheader] at honward
  have hup := h.isCell_of_header (h.closed.up_lt id hid) ((h.closed.header_up id).trans hheader)
  exact hup.imp_right fun hup => ⟨hup, honward.resolve_left (by omega)⟩

section Header

variable (hcolumn : column < m.numColumns)
include hcolumn

theorem down_header_cases :
    links.down (column + 1) = column + 1 ∨ IsCell m column (links.down (column + 1)) := by
  have hlt := h.header_lt hcolumn
  have hheader := h.frame.header_of_le (column + 1) (h.numColumns_eq.symm ▸ hcolumn)
  exact (h.down_cases hlt hheader).imp_right And.left

theorem up_header_cases :
    links.up (column + 1) = column + 1 ∨ IsCell m column (links.up (column + 1)) := by
  have hlt := h.header_lt hcolumn
  have hheader := h.frame.header_of_le (column + 1) (h.numColumns_eq.symm ▸ hcolumn)
  exact h.isCell_of_header (h.closed.up_lt _ hlt) ((h.closed.header_up _).trans hheader)

end Header

end OneWay

/-- The cells of a column follow its header and one another in the order of their rows. -/
theorem ascending_cellsLeft (m : Matrix) {column : Nat} (hcolumn : column < m.numColumns) :
    ((column + 1) :: m.cellsLeft [] column).Pairwise (· < ·) := by
  have hrows : (m.remainder []).rows.Pairwise fun live other => live.row < other.row := by
    rw [Matrix.rows_remainder]
    exact List.pairwise_map.2 (List.pairwise_lt_range.filter _)
  rw [Matrix.cellsLeft_of_not_mem List.not_mem_nil]
  refine List.pairwise_cons.2 ⟨?_, List.pairwise_map.2 ((hrows.filter _).imp_of_mem ?_)⟩
  · intro cell hcell
    obtain ⟨live, -, rfl⟩ := List.mem_map.1 hcell
    exact Nat.lt_of_le_of_lt hcolumn Matrix.lt_place
  · intro live other hlive _ hlt
    obtain ⟨hmem, -, hones⟩ := Matrix.mem_candidates_remainder.1 hlive
    exact cellAt_lt_cellAt (mem_liveRows.1 hmem) hones hlt

theorem Covered.onward_vertical (h : Covered m [] links) (id : Nat) :
    Onward (links.header id) id (links.down id) ∧ Onward (links.header id) (links.up id) id := by
  by_cases hid : id < links.size
  · cases hheader : links.header id with
    | zero =>
      obtain rfl := h.eq_root_of_header hid hheader
      exact ⟨.inl h.down_root, .inl rfl⟩
    | succ column =>
      -- The node belongs to a column, which is a loop of ascending nodes.
      have hcase := h.isCell_of_header hid hheader
      have hcolumn : column + 1 ≤ m.numColumns := hheader.symm.trans_le (h.header_le hid)
      have hmem : id ∈ (column + 1) :: m.cellsLeft [] column := by
        rw [Matrix.cellsLeft_of_not_mem List.not_mem_nil]
        rcases hcase with rfl | ⟨live, hlive, hones, rfl⟩
        · exact List.mem_cons_self
        · exact List.mem_cons_of_mem _ (List.mem_map_of_mem
            (Matrix.mem_candidates_remainder.2 ⟨hlive, fun _ hc => absurd hc List.not_mem_nil, hones⟩))
      have hloop := h.threaded.loop column (h.numColumns_eq.symm ▸ hcolumn)
      exact hloop.onward (ascending_cellsLeft m hcolumn) id hmem
  · have hget := get_of_size_le hid
    rw [Links.header, Links.down, Links.up, hget]
    exact ⟨.inl rfl, .inl rfl⟩

theorem oneWay_ofMatrix (m : Matrix) : OneWay m (ofMatrix m) := by
  have h := covered_ofMatrix m
  have hn := h.numColumns_eq
  have hheaders := h.headers
  have hle : ∀ id ∈ root :: (m.remainder []).columns.map (· + 1), id ≤ m.numColumns :=
    fun id hid => hn ▸ h.le_numColumns hid
  have hmem : ∀ id ≤ m.numColumns, id ∈ root :: (m.remainder []).columns.map (· + 1) := by
    intro id hid
    rw [Matrix.remainder_nil]
    exact mem_headers.2 hid
  have hascending : (root :: (m.remainder []).columns.map (· + 1)).Pairwise (· < ·) := by
    rw [Matrix.remainder_nil]
    refine List.pairwise_cons.2 ⟨?_, List.pairwise_map.2 (List.pairwise_lt_range.imp Nat.succ_lt_succ)⟩
    intro id hid
    obtain ⟨column, -, rfl⟩ := List.mem_map.1 hid
    exact Nat.zero_lt_succ column
  have honward := hheaders.onward hascending
  exact
    { toLaid := h.toLaid
      right_le := fun id hid => hle _ (hheaders.next_mem (hmem id hid))
      left_le := fun id hid => hle _ (hheaders.prev_mem (hmem id hid))
      right := fun id hid => (honward id (hmem id hid)).1
      left := fun id hid => (honward id (hmem id hid)).2
      down := fun id => (h.onward_vertical id).1
      up := fun id => (h.onward_vertical id).2 }

end Links

end ExactCover
