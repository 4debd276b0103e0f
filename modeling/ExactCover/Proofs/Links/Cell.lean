import ExactCover.Proofs.Links.Build
/-!
One more cell at the bottom of a column. It is in no row yet, and neither the rows nor the other
columns notice it.
-/

namespace ExactCover

namespace Links

variable {links : Links}

/-- A cell at the bottom of a column, and in no row yet. -/
def addCell (links : Links) (row column : Nat) : Links :=
  (links.addNode (column + 1) (some row)).hang (column + 1) links.size

section AddCell

variable {row column : Nat}

@[simp] theorem size_addCell : (links.addCell row column).size = links.size + 1 := by
  simp [addCell]

theorem get_addCell (hclosed : links.Closed) (hheader : column + 1 < links.size) (id : Nat) :
    (links.addCell row column).get id =
      if id = links.size then
        { Node.detached links.size (column + 1) (some row) with
          up := links.up (column + 1), down := column + 1 }
      else { links.get id with
        down := if id = links.up (column + 1) then links.size else links.down id
        up := if id = column + 1 then links.size else links.up id } := by
  have hheader' : column + 1 < (links.addNode (column + 1) (some row)).size := by
    rw [size_addNode]
    omega
  have hup : (links.addNode (column + 1) (some row)).up (column + 1) = links.up (column + 1) := by
    rw [up, get_addNode, if_neg (by omega)]
    rfl
  have hup_ne := hclosed.up_ne_size (Nat.ne_of_lt hheader)
  rw [addCell, get_hang hheader' ((hclosed.addNode _ _).up_lt _ hheader') (by simp), hup]
  by_cases hid : id = links.size
  · subst hid
    rw [if_pos rfl, if_pos rfl, if_pos rfl, if_neg hup_ne.symm, if_neg (by omega), get_addNode,
      if_pos rfl]
  · simp only [if_neg hid, down, up, get_addNode]
    rfl

theorem closed_addCell (hclosed : links.Closed) (hheader : column + 1 < links.size)
    (hself : links.header (column + 1) = column + 1) : (links.addCell row column).Closed := by
  refine (hclosed.addNode _ _).hang ?_ (by simp) ?_
  · rw [size_addNode]
    omega
  · rw [header, header, get_addNode, get_addNode, if_pos rfl, if_neg (by omega)]
    exact hself.symm

theorem counts_addCell (hheader : column + 1 < links.size) :
    (links.addCell row column).counts = links.counts.modify (column + 1) (· + 1) := by
  rw [addCell, counts_hang]
  · rfl
  · rw [size_addNode]
    omega

@[simp] theorem numColumns_addCell : (links.addCell row column).numColumns = links.numColumns := by
  rw [addCell, numColumns_hang]
  rfl

section Reading

variable (hclosed : links.Closed) (hheader : column + 1 < links.size) {id : Nat}
include hclosed hheader

theorem left_addCell (hid : id ≠ links.size) : (links.addCell row column).left id = links.left id := by
  rw [left, get_addCell hclosed hheader, if_neg hid]
  rfl

theorem right_addCell (hid : id ≠ links.size) :
    (links.addCell row column).right id = links.right id := by
  rw [right, get_addCell hclosed hheader, if_neg hid]
  rfl

theorem up_addCell (hid : id ≠ links.size) : (links.addCell row column).up id =
    if id = column + 1 then links.size else links.up id := by
  rw [up, get_addCell hclosed hheader, if_neg hid]

theorem down_addCell (hid : id ≠ links.size) : (links.addCell row column).down id =
    if id = links.up (column + 1) then links.size else links.down id := by
  rw [down, get_addCell hclosed hheader, if_neg hid]

theorem header_addCell (hid : id ≠ links.size) :
    (links.addCell row column).header id = links.header id := by
  rw [Links.header, get_addCell hclosed hheader, if_neg hid]
  rfl

theorem row_addCell (hid : id ≠ links.size) : (links.addCell row column).row id = links.row id := by
  rw [Links.row, get_addCell hclosed hheader, if_neg hid]
  rfl

theorem get_addCell_size : (links.addCell row column).get links.size =
    { Node.detached links.size (column + 1) (some row) with
      up := links.up (column + 1), down := column + 1 } := by
  rw [get_addCell hclosed hheader, if_pos rfl]

end Reading

section Row

variable (hclosed : links.Closed) (hheader : column + 1 < links.size)
  (hself : links.header (column + 1) = column + 1) {head id : Nat} (hhead : head < links.size)
include hclosed hheader hself hhead

theorem right_linked (hid : id ≠ links.size) :
    ((links.addCell row column).insertBefore head links.size).right id =
      if id = links.left head then links.size else links.right id := by
  have hhead' : head < (links.addCell row column).size := size_addCell.symm ▸ Nat.lt_succ_of_lt hhead
  rw [right_insertBefore (closed_addCell hclosed hheader hself) (by simp) hhead',
    left_addCell hclosed hheader (Nat.ne_of_lt hhead), if_neg hid,
    right_addCell hclosed hheader hid]

theorem left_linked (hid : id ≠ links.size) :
    ((links.addCell row column).insertBefore head links.size).left id =
      if id = head then links.size else links.left id := by
  have hhead' : head < (links.addCell row column).size := size_addCell.symm ▸ Nat.lt_succ_of_lt hhead
  rw [left_insertBefore (closed_addCell hclosed hheader hself) (by simp) hhead', if_neg hid,
    left_addCell hclosed hheader hid]

/-- Linked in before the first cell of a row, the new cell closes the row as its last one. -/
theorem loop_linked {l : List Nat} (hloop : Loop links.right links.left head l)
    (hlt : ∀ id ∈ head :: l, id < links.size) :
    Loop ((links.addCell row column).insertBefore head links.size).right
      ((links.addCell row column).insertBefore head links.size).left head (l ++ [links.size]) := by
  have hclosed' : (links.addCell row column).Closed := closed_addCell hclosed hheader hself
  have hhead' : head < (links.addCell row column).size := size_addCell.symm ▸ Nat.lt_succ_of_lt hhead
  have hleft : (links.addCell row column).left head = links.left head :=
    left_addCell hclosed hheader (Nat.ne_of_lt hhead)
  have hprev := hlt _ (hloop.prev_mem List.mem_cons_self)
  refine hloop.append (fun hmem => Nat.lt_irrefl _ (hlt _ hmem)) (fun id hid => ?_) (fun id hid => ?_)
    ?_ ?_
  · exact right_linked hclosed hheader hself hhead (Nat.ne_of_lt (hlt id hid))
  · exact left_linked hclosed hheader hself hhead (Nat.ne_of_lt (hlt id hid))
  · rw [right_insertBefore hclosed' (by simp) hhead', hleft, if_neg (Nat.ne_of_gt hprev), if_pos rfl]
  · rw [left_insertBefore hclosed' (by simp) hhead', hleft, if_neg (Nat.ne_of_gt hhead), if_pos rfl]

end Row

section Threaded

variable {cells : Nat → List Nat} (h : Threaded cells links) (hclosed : links.Closed)
  (hcolumn : column < links.numColumns)
include h hclosed hcolumn

theorem loop_addCell : Loop (links.addCell row column).down (links.addCell row column).up (column + 1)
    (cells column ++ [links.size]) := by
  have hheader := Nat.lt_of_le_of_lt hcolumn h.numColumns_lt
  have hne : ∀ id ∈ (column + 1) :: cells column, id ≠ links.size :=
    fun id hid => Nat.ne_of_lt (h.lt_size hcolumn hid)
  refine (h.loop column hcolumn).append (fun hmem => hne _ hmem rfl)
    (fun id hid => down_addCell hclosed hheader (hne id hid))
    (fun id hid => up_addCell hclosed hheader (hne id hid)) ?_ ?_
  · rw [down, get_addCell_size hclosed hheader]
  · rw [up, get_addCell_size hclosed hheader]

theorem loop_addCell_of_ne {other : Nat} (hother : other < links.numColumns) (hne : other ≠ column) :
    Loop (links.addCell row column).down (links.addCell row column).up (other + 1) (cells other) := by
  have hheader := Nat.lt_of_le_of_lt hcolumn h.numColumns_lt
  have hforeign : ∀ id ∈ (other + 1) :: cells other, links.header id ≠ links.header (column + 1) := by
    intro id hid
    rw [h.header_of_mem hother hid, h.header_header column hcolumn]
    omega
  refine (h.loop other hother).congr (fun id hid => ?_) (fun id hid => ?_)
  · rw [down_addCell hclosed hheader (Nat.ne_of_lt (h.lt_size hother hid)), if_neg]
    rintro rfl
    exact hforeign _ hid (hclosed.header_up _)
  · rw [up_addCell hclosed hheader (Nat.ne_of_lt (h.lt_size hother hid)), if_neg]
    rintro rfl
    exact hforeign _ hid rfl

theorem threaded_addCell : Threaded
    (fun other => if other = column then cells other ++ [links.size] else cells other)
    (links.addCell row column) := by
  have hlt := h.numColumns_lt
  have hheader := Nat.lt_of_le_of_lt hcolumn hlt
  have hold : ∀ other < links.numColumns, ∀ id ∈ (other + 1) :: cells other,
      id < links.size + 1 ∧ (links.addCell row column).header id = other + 1 := by
    intro other hother id hid
    have hid_lt := h.lt_size hother hid
    refine ⟨Nat.lt_succ_of_lt hid_lt, ?_⟩
    rw [header_addCell hclosed hheader (Nat.ne_of_lt hid_lt), h.header_of_mem hother hid]
  have hnew : (links.addCell row column).header links.size = column + 1 := by
    rw [Links.header, get_addCell_size hclosed hheader]
    rfl
  have hcells : ∀ other < links.numColumns,
      ∀ id ∈ (if other = column then cells other ++ [links.size] else cells other),
        id < links.size + 1 ∧ (links.addCell row column).header id = other + 1 := by
    intro other hother id hid
    split at hid
    case isTrue heq =>
      rcases List.mem_append.1 hid with hid | hid
      · exact hold other hother id (List.mem_cons_of_mem _ hid)
      · rw [List.mem_singleton.1 hid, heq]
        exact ⟨Nat.lt_succ_self _, hnew⟩
    case isFalse => exact hold other hother id (List.mem_cons_of_mem _ hid)
  refine ⟨?_, ?_, ?_, ?_, ?_, ?_⟩
  all_goals simp only [numColumns_addCell, size_addCell]
  · exact Nat.lt_succ_of_lt hlt
  · exact fun other hother => (hold other hother _ List.mem_cons_self).2
  · intro other hother
    by_cases heq : other = column
    · subst heq
      rw [if_pos rfl]
      exact loop_addCell h hclosed hcolumn
    · rw [if_neg heq]
      exact loop_addCell_of_ne h hclosed hcolumn hother heq
  · intro other hother
    rw [counts_addCell hheader, Array.getElem?_modify, h.count other hother]
    by_cases heq : other = column
    · rw [if_pos (by omega), if_pos heq, List.length_append]
      rfl
    · rw [if_neg (by omega), if_neg heq]
  · exact fun other hother id hid => (hcells other hother id hid).1
  · exact fun other hother id hid => (hcells other hother id hid).2

end Threaded

end AddCell

end Links

end ExactCover
