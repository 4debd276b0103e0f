import Mathlib.Data.List.Induction
import ExactCover.Proofs.Links.Splice
import ExactCover.Proofs.Loop
import ExactCover.Proofs.Remainder
/-!
Where the set entries of a matrix lie in the arena: behind the headers, row by row, each row from
left to right. The rows are a plain list here, so that the half-built structure has a layout too.
-/

namespace ExactCover

namespace Links

def firstCell (numColumns : Nat) (rows : List (List Nat)) (row : Nat) : Nat :=
  numColumns + 1 + (rows.take row).flatten.length

/-- The place of a set entry. -/
def cellAt (numColumns : Nat) (rows : List (List Nat)) (row column : Nat) : Nat :=
  firstCell numColumns rows row + (rows[row]?.getD []).idxOf column

/-- The cells of the listed rows in a column. -/
def cellsIn (numColumns : Nat) (rows : List (List Nat)) (listed : List LiveRow) (column : Nat) :
    List Nat :=
  (listed.filter fun live => live.ones.contains column).map fun live =>
    cellAt numColumns rows live.row column

section Places

variable {numColumns row row' column column' : Nat} {rows : List (List Nat)} {ones ones' : List Nat}

theorem lt_firstCell : numColumns < firstCell numColumns rows row := by
  unfold firstCell
  omega

theorem firstCell_le_of_le (h : row ≤ row') :
    firstCell numColumns rows row ≤ firstCell numColumns rows row' := by
  obtain ⟨more, rfl⟩ := Nat.exists_eq_add_of_le h
  simp [firstCell, List.take_add]

theorem firstCell_succ (h : rows[row]? = some ones) :
    firstCell numColumns rows (row + 1) = firstCell numColumns rows row + ones.length := by
  simp [firstCell, List.take_add_one, h, Nat.add_assoc]

theorem firstCell_le_size (row : Nat) :
    firstCell numColumns rows row ≤ numColumns + 1 + rows.flatten.length := by
  have h : firstCell numColumns rows row ≤ firstCell numColumns rows (row + rows.length) :=
    firstCell_le_of_le (Nat.le_add_right _ _)
  rwa [firstCell, firstCell, List.take_of_length_le (Nat.le_add_left _ _)] at h

theorem cellAt_eq (h : rows[row]? = some ones) :
    cellAt numColumns rows row column = firstCell numColumns rows row + ones.idxOf column := by
  simp [cellAt, h]

theorem firstCell_le_cellAt :
    firstCell numColumns rows row ≤ cellAt numColumns rows row column := Nat.le_add_right _ _

theorem lt_cellAt : numColumns < cellAt numColumns rows row column :=
  Nat.lt_of_lt_of_le lt_firstCell firstCell_le_cellAt

theorem cellAt_lt_firstCell_succ (h : rows[row]? = some ones) (hcolumn : column ∈ ones) :
    cellAt numColumns rows row column < firstCell numColumns rows (row + 1) := by
  rw [cellAt_eq h, firstCell_succ h]
  exact Nat.add_lt_add_left (List.idxOf_lt_length_of_mem hcolumn) _

theorem cellAt_lt (h : rows[row]? = some ones) (hcolumn : column ∈ ones) :
    cellAt numColumns rows row column < numColumns + 1 + rows.flatten.length :=
  Nat.lt_of_lt_of_le (cellAt_lt_firstCell_succ h hcolumn) (firstCell_le_size _)

theorem cellAt_lt_cellAt (h : rows[row]? = some ones) (hcolumn : column ∈ ones)
    (hlt : row < row') :
    cellAt numColumns rows row column < cellAt numColumns rows row' column' := by
  have hfirst : firstCell numColumns rows (row + 1) ≤ firstCell numColumns rows row' :=
    firstCell_le_of_le hlt
  exact Nat.lt_of_lt_of_le (cellAt_lt_firstCell_succ h hcolumn)
    (Nat.le_trans hfirst firstCell_le_cellAt)

theorem cellAt_inj (h : rows[row]? = some ones) (hcolumn : column ∈ ones)
    (h' : rows[row']? = some ones') (hcolumn' : column' ∈ ones')
    (heq : cellAt numColumns rows row column = cellAt numColumns rows row' column') :
    row = row' ∧ column = column' := by
  have hrow : row = row' := by
    rcases Nat.lt_trichotomy row row' with hlt | hsame | hlt
    · exact absurd heq (Nat.ne_of_lt (cellAt_lt_cellAt h hcolumn hlt))
    · exact hsame
    · exact absurd heq.symm (Nat.ne_of_lt (cellAt_lt_cellAt h' hcolumn' hlt))
  subst hrow
  obtain rfl : ones = ones' := Option.some.inj (h.symm.trans h')
  rw [cellAt_eq h, cellAt_eq h] at heq
  exact ⟨rfl, (List.idxOf_inj hcolumn).1 (by omega)⟩

end Places

section Concat

variable {rows : List (List Nat)} {numColumns row column : Nat} {ones done : List Nat}

theorem firstCell_concat (h : row ≤ rows.length) :
    firstCell numColumns (rows ++ [ones]) row = firstCell numColumns rows row := by
  rw [firstCell, firstCell, List.take_append_of_le_length h]

theorem cellAt_concat (h : row < rows.length) :
    cellAt numColumns (rows ++ [ones]) row = cellAt numColumns rows row := by
  funext column
  rw [cellAt, cellAt, firstCell_concat (Nat.le_of_lt h), List.getElem?_append_left h]

theorem cellAt_concat_last : cellAt numColumns (rows ++ [ones]) rows.length column =
    numColumns + 1 + rows.flatten.length + ones.idxOf column := by
  have hlast : (rows ++ [ones])[rows.length]? = some ones := by simp
  rw [cellAt_eq hlast, firstCell_concat (Nat.le_refl _), firstCell, List.take_length]

theorem cellsIn_concat : cellsIn numColumns (rows ++ [ones]) (liveRows (rows ++ [ones])) column =
    cellsIn numColumns rows (liveRows rows) column ++
      if column ∈ ones then [cellAt numColumns (rows ++ [ones]) rows.length column] else [] := by
  rw [cellsIn, liveRows_concat, List.filter_append, List.map_append]
  congr 1
  · refine List.map_congr_left fun live hlive => ?_
    have hrow := mem_liveRows.1 (List.mem_filter.1 hlive).1
    rw [cellAt_concat (List.getElem?_eq_some_iff.1 hrow).1]
  · by_cases hmem : column ∈ ones <;> simp [hmem]

theorem cellAt_snoc_of_mem {other : Nat} (hother : other ∈ done) :
    cellAt numColumns (rows ++ [done ++ [column]]) rows.length other =
      cellAt numColumns (rows ++ [done]) rows.length other := by
  rw [cellAt_concat_last, cellAt_concat_last, List.idxOf_append_of_mem hother]

theorem cellAt_snoc_last (hfresh : column ∉ done) :
    cellAt numColumns (rows ++ [done ++ [column]]) rows.length column =
      numColumns + 1 + (rows ++ [done]).flatten.length := by
  rw [cellAt_concat_last, List.idxOf_append_of_notMem hfresh]
  simp [Nat.add_assoc]

/-- An entry of the rows with one entry more is the new one or an old one in its old place. -/
theorem cellAt_snoc_cases (numColumns : Nat) {other : Nat} {ones : List Nat} (hfresh : column ∉ done)
    (hones : (rows ++ [done ++ [column]])[row]? = some ones) (hother : other ∈ ones) :
    (row = rows.length ∧ other = column ∧
      cellAt numColumns (rows ++ [done ++ [column]]) row other =
        numColumns + 1 + (rows ++ [done]).flatten.length) ∨
    ∃ ones, (rows ++ [done])[row]? = some ones ∧ other ∈ ones ∧
      cellAt numColumns (rows ++ [done ++ [column]]) row other =
        cellAt numColumns (rows ++ [done]) row other := by
  by_cases hrow : row < rows.length
  · rw [List.getElem?_append_left hrow] at hones
    refine .inr ⟨ones, ?_, hother, ?_⟩
    · rw [List.getElem?_append_left hrow, hones]
    · rw [cellAt_concat hrow, cellAt_concat hrow]
  · have hlast : row = rows.length := by
      have := (List.getElem?_eq_some_iff.1 hones).1
      simp only [List.length_append, List.length_singleton] at this
      omega
    subst hlast
    obtain rfl : done ++ [column] = ones := by simpa using hones
    by_cases hdone : other ∈ done
    · exact .inr ⟨done, by simp, hdone, cellAt_snoc_of_mem hdone⟩
    · obtain rfl : other = column := by simpa [hdone] using hother
      exact .inl ⟨rfl, rfl, cellAt_snoc_last hdone⟩

/-- One more entry in the last row is one more cell at the bottom of its column. -/
theorem cellsIn_snoc (hfresh : column ∉ done) (other : Nat) :
    cellsIn numColumns (rows ++ [done ++ [column]]) (liveRows (rows ++ [done ++ [column]])) other =
      if other = column then
        cellsIn numColumns (rows ++ [done]) (liveRows (rows ++ [done])) other ++
          [numColumns + 1 + (rows ++ [done]).flatten.length]
      else cellsIn numColumns (rows ++ [done]) (liveRows (rows ++ [done])) other := by
  rw [cellsIn_concat, cellsIn_concat]
  by_cases heq : other = column
  · subst heq
    simp [hfresh, cellAt_snoc_last hfresh]
  · by_cases hdone : other ∈ done
    · simp [heq, hdone, cellAt_snoc_of_mem hdone]
    · simp [heq, hdone]

theorem exists_cellAt {id : Nat} (hnodup : ∀ ones ∈ rows, ones.Nodup) (hlarge : numColumns < id)
    (hid : id < numColumns + 1 + rows.flatten.length) :
    ∃ row ones column, rows[row]? = some ones ∧ column ∈ ones ∧
      cellAt numColumns rows row column = id := by
  induction rows using List.reverseRecOn with
  | nil =>
    rw [List.flatten_nil, List.length_nil] at hid
    omega
  | append_singleton rows ones ih =>
    by_cases hold : id < numColumns + 1 + rows.flatten.length
    · obtain ⟨row, found, column, hfound, hcolumn, hat⟩ :=
        ih (fun ones h => hnodup ones (List.mem_append_left _ h)) hold
      have hlt : row < rows.length := (List.getElem?_eq_some_iff.1 hfound).1
      refine ⟨row, found, column, ?_, hcolumn, ?_⟩
      · rw [List.getElem?_append_left hlt, hfound]
      · rw [cellAt_concat hlt, hat]
    · obtain ⟨index, rfl⟩ := Nat.exists_eq_add_of_le (Nat.le_of_not_lt hold)
      have hindex : index < ones.length := by
        simp only [List.flatten_append, List.length_append, List.flatten_singleton] at hid
        omega
      refine ⟨rows.length, ones, ones[index], by simp, List.getElem_mem hindex, ?_⟩
      rw [cellAt_concat_last, (hnodup ones (by simp)).idxOf_getElem]

end Concat

/-- The tags of the nodes, and the rows as loops. -/
structure Frame (rows : List (List Nat)) (links : Links) : Prop where
  size_eq : links.size = links.numColumns + 1 + rows.flatten.length
  counts_size : links.counts.size = links.numColumns + 1
  header_of_le : ∀ id ≤ links.numColumns, links.header id = id
  row_of_le : ∀ id ≤ links.numColumns, links.row id = none
  header_cell : ∀ row ones, rows[row]? = some ones → ∀ column ∈ ones,
    links.header (cellAt links.numColumns rows row column) = column + 1
  row_cell : ∀ row ones, rows[row]? = some ones → ∀ column ∈ ones,
    links.row (cellAt links.numColumns rows row column) = some row
  row_loop : ∀ row first rest, rows[row]? = some (first :: rest) →
    Loop links.right links.left (cellAt links.numColumns rows row first)
      (rest.map (cellAt links.numColumns rows row))

theorem Frame.congr {rows : List (List Nat)} {links links' : Links} (h : Frame rows links)
    (hsame : SameTags links links')
    (hleft : ∀ id, links.numColumns < id → links'.left id = links.left id)
    (hright : ∀ id, links.numColumns < id → links'.right id = links.right id) :
    Frame rows links' := by
  refine ⟨?_, ?_, ?_, ?_, ?_, ?_, ?_⟩
  all_goals simp only [hsame.size_eq, hsame.counts_size_eq, hsame.numColumns_eq, hsame.header_eq,
    hsame.row_eq]
  · exact h.size_eq
  · exact h.counts_size
  · exact h.header_of_le
  · exact h.row_of_le
  · exact h.header_cell
  · exact h.row_cell
  · intro row first rest hrow
    have hlarge : ∀ id ∈ cellAt links.numColumns rows row first ::
        rest.map (cellAt links.numColumns rows row), links.numColumns < id := by
      intro id hid
      rcases List.mem_cons.1 hid with rfl | hid
      · exact lt_cellAt
      · obtain ⟨column, -, rfl⟩ := List.mem_map.1 hid
        exact lt_cellAt
    exact (h.row_loop row first rest hrow).congr (fun id hid => hright id (hlarge id hid))
      (fun id hid => hleft id (hlarge id hid))

section Last

variable {rows : List (List Nat)} {links : Links} {first : Nat} {further : List Nat}
  (h : Frame (rows ++ [first :: further]) links)
include h

theorem Frame.last_loop : Loop links.right links.left (links.numColumns + 1 + rows.flatten.length)
    (further.map (cellAt links.numColumns (rows ++ [first :: further]) rows.length)) := by
  have hloop := h.row_loop rows.length first further (by simp)
  rwa [cellAt_concat_last, List.idxOf_cons_self, Nat.add_zero] at hloop

theorem Frame.mem_last : ∀ id ∈ (links.numColumns + 1 + rows.flatten.length) ::
    further.map (cellAt links.numColumns (rows ++ [first :: further]) rows.length),
    links.numColumns + 1 + rows.flatten.length ≤ id ∧ id < links.size := by
  intro id hid
  have hsize := h.size_eq
  simp only [List.flatten_append, List.length_append, List.flatten_singleton, List.length_cons]
    at hsize
  rcases List.mem_cons.1 hid with rfl | hid
  · omega
  · obtain ⟨column, hcolumn, rfl⟩ := List.mem_map.1 hid
    have hlt := List.idxOf_lt_length_of_mem (List.mem_cons_of_mem first hcolumn)
    rw [List.length_cons] at hlt
    rw [cellAt_concat_last]
    omega

end Last

theorem Frame.others_loop {rows : List (List Nat)} {links : Links} (h : Frame rows links)
    {row column : Nat} {ones : List Nat} (hrow : rows[row]? = some ones)
    (hascending : ones.Pairwise (· < ·)) (hcolumn : column ∈ ones) :
    Loop links.right links.left (cellAt links.numColumns rows row column)
      ((Remainder.others { row, ones } column).map (cellAt links.numColumns rows row)) := by
  obtain ⟨before, after, rfl⟩ := List.append_of_mem hcolumn
  rw [Remainder.others_append hascending]
  cases before with
  | nil =>
    rw [List.append_nil]
    exact h.row_loop row column after hrow
  | cons first before =>
    have hloop := h.row_loop row first (before ++ column :: after) hrow
    rw [List.map_append, List.map_cons] at hloop
    rw [List.map_append, List.map_cons]
    exact hloop.rotate

end Links

end ExactCover
