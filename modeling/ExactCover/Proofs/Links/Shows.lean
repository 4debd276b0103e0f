import Mathlib.Data.List.Induction
import ExactCover.Proofs.Links.Cell
import ExactCover.Proofs.Links.Headers
/-!
The links of a matrix show the matrix: its headers in order, below each of them the cells of the
rows that set the column, and each row as a loop. Every stage of the building shows the entries seen
so far, and the last one shows them all.
-/

namespace ExactCover

namespace Links

variable {links : Links} {rows : List (List Nat)}

/-- The structure holds exactly the entries of the rows, and nothing of it is covered. -/
structure Shows (rows : List (List Nat)) (links : Links) : Prop where
  frame : Frame rows links
  closed : links.Closed
  headers : Loop links.right links.left root ((List.range links.numColumns).map (· + 1))
  threaded : Threaded (cellsIn links.numColumns rows (liveRows rows)) links

theorem ShowsHeaders.shows {numColumns numRows : Nat}
    (h : ShowsHeaders numColumns numRows numColumns links) : Shows [] links := by
  have hn : links.numColumns = numColumns := h.numColumns_eq
  refine ⟨⟨?_, ?_, ?_, ?_, ?_, ?_, ?_⟩, h.closed, hn.symm ▸ h.headers,
    ⟨?_, ?_, ?_, ?_, ?_, ?_⟩⟩
  · rw [h.size_eq, hn]
    rfl
  · rw [h.counts_eq, hn, Array.size_replicate]
  · exact fun id _ => h.header_eq id
  · exact fun id _ => h.row_eq id
  · simp
  · simp
  · simp
  · rw [h.size_eq, hn]
    exact Nat.lt_succ_self _
  · exact fun column _ => h.header_eq _
  · exact fun column _ => .nil (h.down_eq _) (h.up_eq _)
  · intro column hcolumn
    rw [h.counts_eq]
    simp [cellsIn, liveRows, hn ▸ hcolumn]
  · simp [cellsIn, liveRows]
  · simp [cellsIn, liveRows]

section AppendCell

variable {links' : Links} {done : List Nat} {row column : Nat} (h : Shows (rows ++ [done]) links)
  (hcolumn : column < links.numColumns) (hfresh : column ∉ done)
include h hcolumn hfresh

/-- The tags with one more entry at the end of the last row, whose loop is given. -/
theorem Shows.frame_appendEntry (hsame : SameTags (links.addCell rows.length column) links')
    (hleft : ∀ id < links.numColumns + 1 + rows.flatten.length, links'.left id = links.left id)
    (hright : ∀ id < links.numColumns + 1 + rows.flatten.length, links'.right id = links.right id)
    (hlast : ∀ first rest, done ++ [column] = first :: rest → Loop links'.right links'.left
      (cellAt links.numColumns (rows ++ [done ++ [column]]) rows.length first)
      (rest.map (cellAt links.numColumns (rows ++ [done ++ [column]]) rows.length))) :
    Frame (rows ++ [done ++ [column]]) links' := by
  have hheader := Nat.lt_of_le_of_lt hcolumn h.threaded.numColumns_lt
  have hlt := h.threaded.numColumns_lt
  have hn : links'.numColumns = links.numColumns := hsame.numColumns_eq.trans numColumns_addCell
  have hheader_old : ∀ id < links.size, links'.header id = links.header id := fun id hid =>
    (hsame.header_eq id).trans (header_addCell h.closed hheader (Nat.ne_of_lt hid))
  have hrow_old : ∀ id < links.size, links'.row id = links.row id := fun id hid =>
    (hsame.row_eq id).trans (row_addCell h.closed hheader (Nat.ne_of_lt hid))
  have hnew := @get_addCell_size _ rows.length _ h.closed hheader
  refine ⟨?_, ?_, ?_, ?_, ?_, ?_, ?_⟩
  all_goals rw [hn]
  · rw [hsame.size_eq, size_addCell, h.frame.size_eq]
    simp [Nat.add_assoc]
  · rw [hsame.counts_size_eq, counts_addCell hheader, Array.size_modify, h.frame.counts_size]
  · intro id hid
    rw [hheader_old id (Nat.lt_of_le_of_lt hid hlt)]
    exact h.frame.header_of_le id hid
  · intro id hid
    rw [hrow_old id (Nat.lt_of_le_of_lt hid hlt)]
    exact h.frame.row_of_le id hid
  · intro row ones hones other hother
    rcases cellAt_snoc_cases links.numColumns hfresh hones hother with
      ⟨rfl, rfl, heq⟩ | ⟨ones, hones, hother, heq⟩
    · rw [heq, ← h.frame.size_eq, hsame.header_eq, Links.header, hnew]
      rfl
    · rw [heq, hheader_old _ (h.frame.size_eq ▸ cellAt_lt hones hother)]
      exact h.frame.header_cell row ones hones other hother
  · intro row ones hones other hother
    rcases cellAt_snoc_cases links.numColumns hfresh hones hother with
      ⟨rfl, rfl, heq⟩ | ⟨ones, hones, hother, heq⟩
    · rw [heq, ← h.frame.size_eq, hsame.row_eq, Links.row, hnew]
      rfl
    · rw [heq, hrow_old _ (h.frame.size_eq ▸ cellAt_lt hones hother)]
      exact h.frame.row_cell row ones hones other hother
  · intro row first rest hones
    by_cases hrow : row < rows.length
    · rw [List.getElem?_append_left hrow] at hones
      have hloop := h.frame.row_loop row first rest (by rwa [List.getElem?_append_left hrow])
      rw [cellAt_concat hrow] at hloop ⊢
      have hbefore : ∀ id ∈ cellAt links.numColumns rows row first ::
          rest.map (cellAt links.numColumns rows row),
          id < links.numColumns + 1 + rows.flatten.length := by
        intro id hid
        rw [← List.map_cons] at hid
        obtain ⟨other, hother, rfl⟩ := List.mem_map.1 hid
        exact cellAt_lt hones hother
      exact hloop.congr (fun id hid => hright id (hbefore id hid))
        (fun id hid => hleft id (hbefore id hid))
    · have hlen := (List.getElem?_eq_some_iff.1 hones).1
      simp only [List.length_append, List.length_singleton] at hlen
      obtain rfl : row = rows.length := by omega
      exact hlast first rest (by simpa using hones)

theorem Shows.appendEntry
    (hsame : SameColumns (links.addCell rows.length column) links') (hclosed : links'.Closed)
    (hleft : ∀ id < links.numColumns + 1 + rows.flatten.length, links'.left id = links.left id)
    (hright : ∀ id < links.numColumns + 1 + rows.flatten.length, links'.right id = links.right id)
    (hlast : ∀ first rest, done ++ [column] = first :: rest → Loop links'.right links'.left
      (cellAt links.numColumns (rows ++ [done ++ [column]]) rows.length first)
      (rest.map (cellAt links.numColumns (rows ++ [done ++ [column]]) rows.length))) :
    Shows (rows ++ [done ++ [column]]) links' := by
  have hn : links'.numColumns = links.numColumns := hsame.numColumns_eq.trans numColumns_addCell
  refine ⟨h.frame_appendEntry hcolumn hfresh hsame.toSameTags hleft hright hlast, hclosed, ?_, ?_⟩
  · have hbefore : ∀ id ∈ root :: (List.range links.numColumns).map (· + 1),
        id < links.numColumns + 1 + rows.flatten.length := by
      intro id hid
      have := mem_headers.1 hid
      omega
    rw [hn]
    exact h.headers.congr (fun id hid => hright id (hbefore id hid))
      (fun id hid => hleft id (hbefore id hid))
  · refine ((threaded_addCell h.threaded h.closed hcolumn).of_sameColumns hsame).congr ?_
    intro other _
    rw [hn, cellsIn_snoc hfresh, ← h.frame.size_eq]

theorem Shows.appendFirst (hdone : done = []) :
    Shows (rows ++ [[column]]) (links.addCell rows.length column) := by
  subst hdone
  have hheader := Nat.lt_of_le_of_lt hcolumn h.threaded.numColumns_lt
  have hself : links.header (column + 1) = column + 1 := h.threaded.header_header column hcolumn
  have hsize : links.size = links.numColumns + 1 + rows.flatten.length := by
    simpa using h.frame.size_eq
  refine h.appendEntry hcolumn hfresh ?_ (closed_addCell h.closed hheader hself) ?_ ?_ ?_
  · exact ⟨⟨rfl, rfl, rfl, rfl, fun _ => rfl, fun _ => rfl⟩, rfl, fun _ => rfl, fun _ => rfl⟩
  · exact fun id hid => left_addCell h.closed hheader (by omega)
  · exact fun id hid => right_addCell h.closed hheader (by omega)
  · intro first rest heq
    obtain ⟨rfl, rfl⟩ : column = first ∧ [] = rest := by simpa using heq
    rw [cellAt_snoc_last hfresh, ← h.frame.size_eq]
    refine .nil ?_ ?_
    · rw [right, get_addCell_size h.closed hheader]
      rfl
    · rw [left, get_addCell_size h.closed hheader]
      rfl

theorem Shows.appendNext {first : Nat} {further : List Nat} (hdone : done = first :: further) :
    Shows (rows ++ [done ++ [column]]) ((links.addCell rows.length column).insertBefore
      (links.numColumns + 1 + rows.flatten.length) links.size) := by
  subst hdone
  have hheader := Nat.lt_of_le_of_lt hcolumn h.threaded.numColumns_lt
  have hself : links.header (column + 1) = column + 1 := h.threaded.header_header column hcolumn
  have hloop := h.frame.last_loop
  have hrange := h.frame.mem_last
  have hfurther : further.map (cellAt links.numColumns (rows ++ [first :: further ++ [column]])
        rows.length) =
      further.map (cellAt links.numColumns (rows ++ [first :: further]) rows.length) :=
    List.map_congr_left fun other hother => cellAt_snoc_of_mem (List.mem_cons_of_mem first hother)
  have hfirst : cellAt links.numColumns (rows ++ [first :: further ++ [column]]) rows.length first =
      links.numColumns + 1 + rows.flatten.length := by
    rw [cellAt_concat_last, List.cons_append, List.idxOf_cons_self, Nat.add_zero]
  have hhead := (hrange _ List.mem_cons_self).2
  have hprev := (hrange _ (hloop.prev_mem List.mem_cons_self)).1
  have hhead' : links.numColumns + 1 + rows.flatten.length <
      (links.addCell rows.length column).size := size_addCell.symm ▸ Nat.lt_succ_of_lt hhead
  have hclosed : (links.addCell rows.length column).Closed := closed_addCell h.closed hheader hself
  refine h.appendEntry hcolumn hfresh (sameColumns_insertBefore hclosed hhead' (by simp))
    (hclosed.insertBefore hhead' (by simp)) ?_ ?_ ?_
  · intro id hid
    rw [left_linked h.closed hheader hself hhead (by omega), if_neg (by omega)]
  · intro id hid
    rw [right_linked h.closed hheader hself hhead (by omega), if_neg (by omega)]
  · intro start rest heq
    obtain ⟨rfl, rfl⟩ : first = start ∧ further ++ [column] = rest := by simpa using heq
    rw [List.map_append, List.map_singleton, hfurther, hfirst, cellAt_snoc_last hfresh,
      ← h.frame.size_eq]
    exact loop_linked h.closed hheader hself hhead hloop fun id hid => (hrange id hid).2

end AppendCell

theorem Shows.appendEmpty (h : Shows rows links) : Shows (rows ++ [[]]) links := by
  have hrow : ∀ {row : Nat} {ones : List Nat} {column : Nat}, (rows ++ [[]])[row]? = some ones →
      column ∈ ones → row < rows.length ∧ rows[row]? = some ones := by
    intro row ones column hones hcolumn
    by_cases hlt : row < rows.length
    · rw [List.getElem?_append_left hlt] at hones
      exact ⟨hlt, hones⟩
    · have hlen := (List.getElem?_eq_some_iff.1 hones).1
      simp only [List.length_append, List.length_singleton] at hlen
      obtain rfl : row = rows.length := by omega
      obtain rfl : [] = ones := by simpa using hones
      cases hcolumn
  refine ⟨⟨?_, h.frame.counts_size, h.frame.header_of_le, h.frame.row_of_le, ?_, ?_, ?_⟩,
    h.closed, h.headers, h.threaded.congr ?_⟩
  · simpa using h.frame.size_eq
  · intro row ones hones column hcolumn
    obtain ⟨hlt, hones⟩ := hrow hones hcolumn
    rw [cellAt_concat hlt]
    exact h.frame.header_cell row ones hones column hcolumn
  · intro row ones hones column hcolumn
    obtain ⟨hlt, hones⟩ := hrow hones hcolumn
    rw [cellAt_concat hlt]
    exact h.frame.row_cell row ones hones column hcolumn
  · intro row first rest hones
    obtain ⟨hlt, hones⟩ := hrow hones List.mem_cons_self
    rw [cellAt_concat hlt]
    exact h.frame.row_loop row first rest hones
  · intro column _
    rw [cellsIn_concat]
    simp

theorem numRows_addCell {row column : Nat} : (links.addCell row column).numRows = links.numRows := by
  rw [addCell, numRows_hang]
  rfl

/-- The row built so far, with the place of its first cell once there is one. -/
theorem Shows.foldl_appendCell (h : Shows rows links) (columns : List Nat)
    (hnodup : columns.Nodup) (hlt : ∀ column ∈ columns, column < links.numColumns) :
    ∃ links', columns.foldl (appendCell rows.length) (links, none) =
        (links', if columns = [] then none else some (links.numColumns + 1 + rows.flatten.length)) ∧
      Shows (rows ++ [columns]) links' ∧ links'.numColumns = links.numColumns ∧
      links'.numRows = links.numRows := by
  -- A row grows at its end, and so does the induction.
  induction columns using List.reverseRecOn with
  | nil => exact ⟨links, rfl, h.appendEmpty, rfl, rfl⟩
  | append_singleton done column ih =>
    obtain ⟨hdone, -, hdisj⟩ := List.nodup_append.1 hnodup
    have hfresh : column ∉ done := fun hmem => hdisj column hmem column (by simp) rfl
    obtain ⟨mid, hfold, hshows, hn, hrows⟩ :=
      ih hdone fun c hc => hlt c (List.mem_append_left [column] hc)
    have hcolumn : column < mid.numColumns := hn ▸ hlt column (by simp)
    rw [List.foldl_append, hfold]
    cases done with
    | nil =>
      refine ⟨mid.addCell rows.length column, ?_, hshows.appendFirst hcolumn hfresh rfl,
        numColumns_addCell.trans hn, numRows_addCell.trans hrows⟩
      have hsize : mid.size = links.numColumns + 1 + rows.flatten.length := by
        simpa [hn] using hshows.frame.size_eq
      simp [appendCell, addCell, hsize]
    | cons first further =>
      refine ⟨_, ?_, hshows.appendNext hcolumn hfresh rfl,
        numColumns_insertBefore.trans (numColumns_addCell.trans hn),
        numRows_insertBefore.trans (numRows_addCell.trans hrows)⟩
      simp [appendCell, addCell, hn]

theorem Shows.foldl_appendRow {numColumns numRows : Nat}
    (h : ShowsHeaders numColumns numRows numColumns links) (rows : List (List Nat))
    (hnodup : ∀ ones ∈ rows, ones.Nodup) (hlt : ∀ ones ∈ rows, ∀ column ∈ ones, column < numColumns) :
    let built := rows.zipIdx.foldl (fun links (columns, row) => links.appendRow row columns) links
    Shows rows built ∧ built.numColumns = numColumns ∧ built.numRows = numRows := by
  induction rows using List.reverseRecOn with
  | nil => exact ⟨h.shows, h.numColumns_eq, h.numRows_eq⟩
  | append_singleton rows ones ih =>
    obtain ⟨hshows, hn, hrows⟩ := ih (fun o ho => hnodup o (List.mem_append_left [ones] ho))
      (fun o ho => hlt o (List.mem_append_left [ones] ho))
    obtain ⟨links', hfold, hshows', hn', hrows'⟩ := hshows.foldl_appendCell ones
      (hnodup ones (by simp)) (fun c hc => hn.symm ▸ hlt ones (by simp) c hc)
    have hlast : ∀ start : Links, (rows ++ [ones]).zipIdx.foldl
        (fun links (columns, row) => links.appendRow row columns) start =
        (rows.zipIdx.foldl (fun links (columns, row) => links.appendRow row columns) start).appendRow
          rows.length ones := by
      intro start
      rw [List.zipIdx_append, List.foldl_append]
      simp
    rw [hlast, appendRow, hfold]
    exact ⟨hshows', hn'.trans hn, hrows'.trans hrows⟩

theorem shows_ofMatrix (m : Matrix) : Shows m.rows (ofMatrix m) ∧
    (ofMatrix m).numColumns = m.numColumns ∧ (ofMatrix m).numRows = m.numRows :=
  Shows.foldl_appendRow (showsHeaders_repeat m.numColumns m.numRows m.numColumns) m.rows
    (fun ones hones => (m.ascending ones hones).imp Nat.ne_of_lt) m.bounded

end Links

end ExactCover
