import ExactCover.Proofs.Links.Check
import ExactCover.Proofs.Links.Live
import ExactCover.Proofs.Matrix.Construct
/-!
The links of a matrix are the matrix in another form. The nodes are numbered by the set entries in
the order in which they are read, every list says which entries stand in a row or a column, and
nothing of the matrix is lost: different matrices have different links.
-/

namespace ExactCover

theorem idxOf_map_of_injective {α β : Type} [BEq α] [LawfulBEq α] [BEq β] [LawfulBEq β] {f : α → β}
    (hf : Function.Injective f) (a : α) (l : List α) : (l.map f).idxOf (f a) = l.idxOf a := by
  induction l with
  | nil => rfl
  | cons b l ih =>
    rw [List.map_cons, List.idxOf_cons, List.idxOf_cons, ih]
    by_cases hb : b = a
    · subst hb
      simp
    · rw [beq_false_of_ne hb, beq_false_of_ne (hf.ne hb)]

namespace Matrix

variable {m m' : Matrix} {row column : Nat}

/-- The set entries of a row, as rows and columns. -/
def entriesOf (m : Matrix) (row : Nat) : List (Nat × Nat) :=
  ((List.range m.numColumns).filter (m.isSet row)).map (Prod.mk row)

/-- The set entries, row by row and each row from left to right. -/
def setEntries (m : Matrix) : List (Nat × Nat) := (List.range m.numRows).flatMap m.entriesOf

/-- The node of a set entry: the cells follow the headers in the order of the entries. -/
def nodeOf (m : Matrix) (row column : Nat) : Nat :=
  m.numColumns + 1 + m.setEntries.idxOf (row, column)

/-- The other set columns of a row, from a column on and around. -/
def around (m : Matrix) (row column : Nat) : List Nat :=
  (List.range m.numColumns).filter (fun other => column < other && m.isSet row other) ++
    (List.range m.numColumns).filter (fun other => other < column && m.isSet row other)

theorem entriesOf_eq (m : Matrix) (row : Nat) :
    m.entriesOf row = ((m.ones? row).getD []).map (Prod.mk row) := by
  rw [entriesOf, ones_eq_filter]

theorem mem_entriesOf {entry : Nat × Nat} :
    entry ∈ m.entriesOf row ↔ entry.1 = row ∧ m.isSet row entry.2 = true := by
  obtain ⟨other, column⟩ := entry
  simp only [entriesOf_eq, List.mem_map, Prod.mk.injEq, isSet_iff]
  constructor
  · rintro ⟨one, hone, rfl, rfl⟩
    exact ⟨rfl, hone⟩
  · rintro ⟨rfl, hset⟩
    exact ⟨column, hset, rfl, rfl⟩

theorem mem_setEntries : (row, column) ∈ m.setEntries ↔ m.isSet row column = true := by
  simp only [setEntries, List.mem_flatMap, List.mem_range, mem_entriesOf]
  constructor
  · rintro ⟨row, -, rfl, hset⟩
    exact hset
  · intro hset
    exact ⟨row, (lt_of_isSet hset).1, rfl, hset⟩

theorem nodup_setEntries (m : Matrix) : m.setEntries.Nodup := by
  refine List.nodup_flatMap.2 ⟨fun row _ => ?_, List.nodup_range.imp fun hne entry hrow hother => ?_⟩
  · exact (List.nodup_range.filter _).map fun _ _ heq => congrArg Prod.snd heq
  · exact hne ((mem_entriesOf.1 hrow).1.symm.trans (mem_entriesOf.1 hother).1)

theorem length_flatMap_entriesOf (m : Matrix) {row : Nat} (hrow : row ≤ m.numRows) :
    ((List.range row).flatMap m.entriesOf).length = (m.rows.take row).flatten.length := by
  induction row with
  | zero => rfl
  | succ row ih =>
    have hlt : row < m.rows.length := hrow
    have hones : m.ones? row = some m.rows[row] := List.getElem?_eq_getElem hlt
    rw [List.range_succ, List.flatMap_append, List.length_append, ih (Nat.le_of_succ_le hrow),
      ← List.take_append_getElem hlt, List.flatten_append, List.length_append]
    simp [entriesOf_eq, hones]

theorem length_setEntries (m : Matrix) : m.setEntries.length = m.numOnes := by
  rw [setEntries, m.length_flatMap_entriesOf (Nat.le_refl _), numRows, List.take_length, numOnes]

/-- The place of an entry in the listing: behind all entries of the rows above it. -/
theorem nodeOf_eq (hset : m.isSet row column = true) :
    m.nodeOf row column = Links.cellAt m.numColumns m.rows row column := by
  have hrow : row < m.numRows := (lt_of_isSet hset).1
  have hones : m.rows[row]? = some ((m.ones? row).getD []) := by
    rw [ones?, List.getElem?_eq_getElem hrow]
    rfl
  obtain ⟨more, hmore⟩ := Nat.exists_eq_add_of_lt hrow
  have habove : (row, column) ∉ (List.range row).flatMap m.entriesOf := by
    intro hmem
    obtain ⟨other, hother, hentry⟩ := List.mem_flatMap.1 hmem
    exact Nat.ne_of_lt (List.mem_range.1 hother) (mem_entriesOf.1 hentry).1.symm
  have hmem : (row, column) ∈ m.entriesOf row := mem_entriesOf.2 ⟨rfl, hset⟩
  have hsplit : m.setEntries = (List.range row).flatMap m.entriesOf ++ (m.entriesOf row ++
      ((List.range more).map (row + 1 + ·)).flatMap m.entriesOf) := by
    rw [setEntries, hmore, Nat.add_right_comm, List.range_add, List.flatMap_append, List.range_succ,
      List.flatMap_append, List.flatMap_singleton, List.append_assoc]
  rw [nodeOf, hsplit, List.idxOf_append_of_notMem habove, List.idxOf_append_of_mem hmem,
    m.length_flatMap_entriesOf (Nat.le_of_lt hrow), entriesOf_eq, idxOf_map_of_injective
    (Prod.mk_right_injective row), Links.cellAt_eq hones, Links.firstCell, ← Nat.add_assoc]

theorem mem_around {other : Nat} :
    other ∈ m.around row column ↔ m.isSet row other = true ∧ other ≠ column := by
  simp only [around, List.mem_append, List.mem_filter, List.mem_range, Bool.and_eq_true,
    decide_eq_true_eq]
  constructor
  · rintro (⟨-, hlt, hset⟩ | ⟨-, hlt, hset⟩)
    · exact ⟨hset, Nat.ne_of_gt hlt⟩
    · exact ⟨hset, Nat.ne_of_lt hlt⟩
  · rintro ⟨hset, hne⟩
    have hcolumn := (lt_of_isSet hset).2
    rcases Nat.lt_or_gt_of_ne hne with hlt | hlt
    · exact .inr ⟨hcolumn, hlt, hset⟩
    · exact .inl ⟨hcolumn, hlt, hset⟩

theorem others_eq_around (m : Matrix) (row column : Nat) :
    Remainder.others (m.liveRow row) column = m.around row column := by
  rw [Remainder.others, liveRow, ones_eq_filter, List.filter_filter, List.filter_filter, around]

theorem liveIn_nil (m : Matrix) (column : Nat) :
    m.liveIn [] column = (List.range m.numRows).filter (m.isSet · column) := by
  rw [liveIn, rowsAvoiding]
  simp

end Matrix

namespace Links

variable {m m' : Matrix} {links : Links} {row column : Nat}

/-- A node and its tags. -/
def HasTags (links : Links) (id header : Nat) (row : Option Nat) : Prop :=
  ∃ node, links.node id = .ok node ∧ node.column = header ∧ node.row = row

/-- The arena holds a matrix of which nothing is covered: its nodes are the root, the headers and the
set entries, in this order, and every list of nodes says what the matrix says. -/
structure Represents (m : Matrix) (links : Links) : Prop where
  numColumns_eq : links.numColumns = m.numColumns
  numRows_eq : links.numRows = m.numRows
  numCells_eq : links.numCells = m.numOnes
  size_eq : links.size = m.numColumns + 1 + m.setEntries.length
  root_tags : links.HasTags root root none
  header_tags : ∀ column < m.numColumns, links.HasTags (column + 1) (column + 1) none
  cell_tags : ∀ k row column, m.setEntries[k]? = some (row, column) →
    links.HasTags (m.numColumns + 1 + k) (column + 1) (some row)
  columns_eq : links.columns = .ok ((List.range m.numColumns).map (· + 1))
  columnCells_eq : ∀ column < m.numColumns, links.columnCells (column + 1) =
    .ok (((List.range m.numRows).filter (m.isSet · column)).map (m.nodeOf · column))
  count_eq : ∀ column < m.numColumns,
    links.count (column + 1) = .ok ((List.range m.numRows).countP (m.isSet · column))
  rowCells_eq : ∀ row column, m.isSet row column = true →
    links.rowCells (m.nodeOf row column) = .ok ((m.around row column).map (m.nodeOf row))
  leftCells_eq : ∀ row column, m.isSet row column = true →
    links.ring Node.left (m.nodeOf row column) =
      .ok ((m.around row column).map (m.nodeOf row)).reverse
  check_eq : links.check = .ok none

theorem HasTags.eq {id header header' : Nat} {row row' : Option Nat}
    (h : links.HasTags id header row) (h' : links.HasTags id header' row') :
    header = header' ∧ row = row' := by
  obtain ⟨node, hnode, rfl, rfl⟩ := h
  obtain ⟨node', hnode', rfl, rfl⟩ := h'
  cases hnode.symm.trans hnode'
  exact ⟨rfl, rfl⟩

section Laid

variable (h : Laid m links) (hset : m.isSet row column = true)
include h hset

theorem Laid.hasTags_nodeOf : links.HasTags (m.nodeOf row column) (column + 1) (some row) := by
  have hlive := Matrix.liveRow_mem_liveRows (Matrix.lt_of_isSet hset).1
  have hones := Matrix.mem_ones_liveRow.2 hset
  rw [show m.nodeOf row column = m.place column (m.liveRow row) from Matrix.nodeOf_eq hset]
  exact ⟨_, node_eq_ok (h.place_lt hlive hones), h.header_place hlive hones,
    h.row_place hlive hones⟩

theorem Laid.nodeOf_loop : Loop links.right links.left (m.nodeOf row column)
    ((m.around row column).map (m.nodeOf row)) := by
  have hlive := Matrix.liveRow_mem_liveRows (Matrix.lt_of_isSet hset).1
  have hloop := h.row_loop hlive (Matrix.mem_ones_liveRow.2 hset)
  have hbeside : m.beside column (m.liveRow row) = (m.around row column).map (m.nodeOf row) := by
    rw [Matrix.beside, Matrix.others_eq_around]
    exact List.map_congr_left fun other hother => (Matrix.nodeOf_eq (Matrix.mem_around.1 hother).1).symm
  rwa [hbeside, show m.place column (m.liveRow row) = m.nodeOf row column from
    (Matrix.nodeOf_eq hset).symm] at hloop

theorem Laid.nodeOf_lt : ∀ id ∈ m.nodeOf row column :: (m.around row column).map (m.nodeOf row),
    id < links.size := by
  have hlt : ∀ other, m.isSet row other = true → m.nodeOf row other < links.size := by
    intro other hother
    rw [Matrix.nodeOf_eq hother]
    exact h.place_lt (Matrix.liveRow_mem_liveRows (Matrix.lt_of_isSet hother).1)
      (Matrix.mem_ones_liveRow.2 hother)
  intro id hid
  rcases List.mem_cons.1 hid with rfl | hid
  · exact hlt column hset
  · obtain ⟨other, hother, rfl⟩ := List.mem_map.1 hid
    exact hlt other (Matrix.mem_around.1 hother).1

end Laid

theorem Covered.represents (h : Covered m [] links) : Represents m links where
  numColumns_eq := h.numColumns_eq
  numRows_eq := h.numRows_eq
  numCells_eq := by
    rw [numCells, h.frame.size_eq, Nat.add_comm links.numColumns, Nat.add_sub_cancel_left]
    rfl
  size_eq := by
    rw [h.frame.size_eq, h.numColumns_eq, Matrix.length_setEntries]
    rfl
  root_tags := ⟨_, node_eq_ok h.root_lt, h.header_root, h.frame.row_of_le root (Nat.zero_le _)⟩
  header_tags := by
    intro column hcolumn
    have hle : column + 1 ≤ links.numColumns := h.numColumns_eq.symm ▸ hcolumn
    exact ⟨_, node_eq_ok (h.header_lt hcolumn), h.frame.header_of_le _ hle, h.frame.row_of_le _ hle⟩
  cell_tags := by
    intro k row column hk
    have hset := Matrix.mem_setEntries.1 (List.mem_of_getElem? hk)
    obtain ⟨hlt, hentry⟩ := List.getElem?_eq_some_iff.1 hk
    have hplace : m.setEntries.idxOf (row, column) = k := by
      rw [← hentry, m.nodup_setEntries.idxOf_getElem]
    rw [← hplace]
    exact h.toLaid.hasTags_nodeOf hset
  columns_eq := by
    rw [h.columns_eq, Matrix.remainder_nil]
    rfl
  columnCells_eq := by
    intro column hcolumn
    rw [(h.holds_of_not_mem hcolumn List.not_mem_nil).cells, Matrix.liveIn_nil]
    exact congrArg Except.ok (List.map_congr_left fun row hrow =>
      (Matrix.nodeOf_eq (List.mem_filter.1 hrow).2).symm)
  count_eq := by
    intro column hcolumn
    rw [(h.holds_of_not_mem hcolumn List.not_mem_nil).count, Matrix.liveIn_nil,
      List.countP_eq_length_filter]
  rowCells_eq := fun _ _ hset => ring_eq (h.nodeOf_loop hset) (h.nodeOf_lt hset)
  leftCells_eq := by
    intro row column hset
    exact ring_eq (h.nodeOf_loop hset).symm fun id hid => h.nodeOf_lt hset id (by simpa using hid)
  check_eq := h.check_eq

/-- Nothing of a matrix is lost in its links: the tags of the cells list its entries. -/
theorem Represents.unique (h : Represents m links) (h' : Represents m' links) : m = m' := by
  have hcolumns : m.numColumns = m'.numColumns := h.numColumns_eq.symm.trans h'.numColumns_eq
  have hlength : m.setEntries.length = m'.setEntries.length := by
    have := h.size_eq.symm.trans h'.size_eq
    omega
  have hentries : m.setEntries = m'.setEntries := by
    refine List.ext_getElem hlength fun k hk hk' => ?_
    have htags := h.cell_tags k _ _ (List.getElem?_eq_getElem hk)
    have htags' := h'.cell_tags k _ _ (List.getElem?_eq_getElem hk')
    rw [hcolumns] at htags
    obtain ⟨hheader, hrow⟩ := htags.eq htags'
    exact Prod.ext (Option.some.inj hrow) (Nat.succ.inj hheader)
  refine Matrix.ext_isSet hcolumns (h.numRows_eq.symm.trans h'.numRows_eq) fun row column => ?_
  rw [Bool.eq_iff_iff, ← Matrix.mem_setEntries, ← Matrix.mem_setEntries, hentries]

/-- The links that are built for a matrix represent it, and no other matrix has the same links. -/
theorem ofMatrix_represents :
    (∀ m, Represents m (ofMatrix m)) ∧ Function.Injective ofMatrix := by
  have hall : ∀ m, Represents m (ofMatrix m) := fun m => (covered_ofMatrix m).represents
  refine ⟨hall, fun m m' heq => ?_⟩
  have hother : Represents m' (ofMatrix m) := heq ▸ hall m'
  exact (hall m).unique hother

end Links

end ExactCover
