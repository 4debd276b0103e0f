import ExactCover.Proofs.Links.Splice
import ExactCover.Proofs.Links.Sweep
/-!
The columns of a structure as lists of cells. Taking a cell out strikes it from its list and leaves
all others alone, so any number of cells may be taken out in any order, and putting them back in
the opposite order gives the structure that was there before.
-/

namespace ExactCover

theorem filter_ne_middle {l₁ l₂ : List Nat} {x : Nat} (h : (l₁ ++ x :: l₂).Nodup) :
    (l₁ ++ x :: l₂).filter (· ≠ x) = l₁ ++ l₂ := by
  have hfresh : x ∉ l₁ ++ l₂ := (List.nodup_cons.1 (List.perm_middle.nodup_iff.1 h)).1
  rw [List.filter_append, List.filter_cons_of_neg (by simp), ← List.filter_append]
  refine List.filter_eq_self.2 fun id hid => decide_eq_true ?_
  rintro rfl
  exact hfresh hid

namespace Links

variable {links : Links} {cells : Nat → List Nat} {cell column : Nat}

/-- Below the header of each column hang its cells, top to bottom, and their number is recorded. -/
structure Threaded (cells : Nat → List Nat) (links : Links) : Prop where
  numColumns_lt : links.numColumns < links.size
  header_header : ∀ column < links.numColumns, links.header (column + 1) = column + 1
  loop : ∀ column < links.numColumns, Loop links.down links.up (column + 1) (cells column)
  count : ∀ column < links.numColumns, links.counts[column + 1]? = some (cells column).length
  cell_lt : ∀ column < links.numColumns, ∀ cell ∈ cells column, cell < links.size
  header_cell : ∀ column < links.numColumns, ∀ cell ∈ cells column,
    links.header cell = column + 1

namespace Threaded

theorem header_of_mem (h : Threaded cells links) (hcolumn : column < links.numColumns) {id : Nat}
    (hid : id ∈ (column + 1) :: cells column) : links.header id = column + 1 := by
  rcases List.mem_cons.1 hid with rfl | hid
  · exact h.header_header column hcolumn
  · exact h.header_cell column hcolumn id hid

theorem lt_size (h : Threaded cells links) (hcolumn : column < links.numColumns) {id : Nat}
    (hid : id ∈ (column + 1) :: cells column) : id < links.size := by
  rcases List.mem_cons.1 hid with rfl | hid
  · exact Nat.lt_of_le_of_lt hcolumn h.numColumns_lt
  · exact h.cell_lt column hcolumn id hid

theorem eq_of_mem (h : Threaded cells links) (hcolumn : column < links.numColumns)
    (hcell : cell ∈ cells column) {other : Nat} (hother : other < links.numColumns)
    (hcell' : cell ∈ cells other) : other = column := by
  have := h.header_cell other hother cell hcell'
  rw [h.header_cell column hcolumn cell hcell] at this
  omega

theorem congr (h : Threaded cells links) {cells' : Nat → List Nat}
    (hsame : ∀ column < links.numColumns, cells' column = cells column) :
    Threaded cells' links where
  numColumns_lt := h.numColumns_lt
  header_header := h.header_header
  loop := fun column hcolumn => by
    rw [hsame column hcolumn]
    exact h.loop column hcolumn
  count := fun column hcolumn => by
    rw [hsame column hcolumn]
    exact h.count column hcolumn
  cell_lt := fun column hcolumn => by
    rw [hsame column hcolumn]
    exact h.cell_lt column hcolumn
  header_cell := fun column hcolumn => by
    rw [hsame column hcolumn]
    exact h.header_cell column hcolumn

theorem of_sameColumns (h : Threaded cells links) {links' : Links}
    (hsame : SameColumns links links') : Threaded cells links' where
  numColumns_lt := by
    rw [hsame.numColumns_eq, hsame.size_eq]
    exact h.numColumns_lt
  header_header := fun column hcolumn => by
    rw [hsame.header_eq]
    exact h.header_header column (hsame.numColumns_eq ▸ hcolumn)
  loop := fun column hcolumn =>
    (h.loop column (hsame.numColumns_eq ▸ hcolumn)).congr (fun id _ => hsame.down_eq id)
      (fun id _ => hsame.up_eq id)
  count := fun column hcolumn => by
    rw [hsame.counts_eq]
    exact h.count column (hsame.numColumns_eq ▸ hcolumn)
  cell_lt := fun column hcolumn => by
    rw [hsame.size_eq]
    exact h.cell_lt column (hsame.numColumns_eq ▸ hcolumn)
  header_cell := fun column hcolumn cell hcell => by
    rw [hsame.header_eq]
    exact h.header_cell column (hsame.numColumns_eq ▸ hcolumn) cell hcell

theorem count_cell (h : Threaded cells links) (hcolumn : column < links.numColumns)
    (hcell : cell ∈ cells column) : ∃ count, count + 1 = (cells column).length ∧
      links.counts[links.header cell]? = some (count + 1) := by
  have hpos : 0 < (cells column).length := List.length_pos_of_mem hcell
  refine ⟨(cells column).length - 1, by omega, ?_⟩
  rw [h.header_cell column hcolumn cell hcell, h.count column hcolumn, Nat.sub_add_cancel hpos]

section Unlink

variable (h : Threaded cells links) (hclosed : links.Closed) (hcolumn : column < links.numColumns)
  (hcell : cell ∈ cells column)
include h hclosed hcolumn hcell

theorem unlink_cell : links.unlink cell = .ok (links.unlinked cell) := by
  obtain ⟨count, -, hcount⟩ := h.count_cell hcolumn hcell
  exact unlink_eq hclosed (h.cell_lt column hcolumn cell hcell) hcount

theorem relink_cell : (links.unlinked cell).relink cell = .ok links := by
  obtain ⟨count, hlength, hcount⟩ := h.count_cell hcolumn hcell
  have hlt : cell < links.size := h.cell_lt column hcolumn cell hcell
  have hsame : SameRows links (links.unlinked cell) := sameRows_rejoined hclosed hlt
  have hloop := h.loop column hcolumn
  have hmem : cell ∈ (column + 1) :: cells column := List.mem_cons_of_mem _ hcell
  have hback := relinked_unlinked hclosed hlt hcount (hloop.next_prev hmem)
    (hloop.prev_next cell hmem) (hloop.symm.next_ne (List.mem_reverse.2 hcell))
    (hloop.next_ne hcell)
  have hcount' : (links.unlinked cell).counts[(links.unlinked cell).header cell]? = some count := by
    rw [hsame.header_eq]
    change (links.counts.modify (links.header cell) (· - 1))[links.header cell]? = _
    simp [Array.getElem?_modify, hcount]
  have hsmall : (cells column).length ≤ links.size :=
    length_le_of_forall_lt hloop.nodup.of_cons (h.cell_lt column hcolumn)
  rw [relink_eq (closed_unlinked hclosed hlt) (hsame.size_eq.symm ▸ hlt) hcount'
    (by rw [hsame.size_eq]; omega), hback]

theorem unlinked : Threaded (fun other => (cells other).filter (· ≠ cell)) (links.unlinked cell) := by
  have hlt : cell < links.size := h.cell_lt column hcolumn cell hcell
  have hsame : SameRows links (links.unlinked cell) := sameRows_rejoined hclosed hlt
  have hheader : links.header cell = column + 1 := h.header_cell column hcolumn cell hcell
  have hother : ∀ other < links.numColumns, other ≠ column →
      (cells other).filter (· ≠ cell) = cells other := by
    intro other hother hne
    refine List.filter_eq_self.2 fun id hid => decide_eq_true ?_
    rintro rfl
    exact hne (h.eq_of_mem hcolumn hcell hother hid)
  refine ⟨?_, ?_, ?_, ?_, ?_, ?_⟩
  · rw [hsame.size_eq]
    exact h.numColumns_lt
  · intro other hother
    rw [hsame.header_eq]
    exact h.header_header other hother
  -- The links that change are those around the cell, and they all belong to its column.
  · intro other hlt'
    by_cases heq : other = column
    · subst heq
      have hloop := h.loop other hcolumn
      obtain ⟨l₁, l₂, hsplit⟩ := List.append_of_mem hcell
      rw [hsplit] at hloop ⊢
      rw [filter_ne_middle hloop.nodup.of_cons]
      exact hloop.remove (fun id _ => down_rejoined hclosed hlt id)
        (fun id _ => up_rejoined hclosed hlt id)
    · rw [hother other hlt' heq]
      have hbeside : Beside (other + 1) links (links.unlinked cell) :=
        beside_rejoined hclosed hlt (by omega)
      exact (h.loop other hlt').congr
        (fun id hid => hbeside.down_eq id (h.header_of_mem hlt' hid))
        (fun id hid => hbeside.up_eq id (h.header_of_mem hlt' hid))
  · intro other hlt'
    change (links.counts.modify (links.header cell) (· - 1))[other + 1]? = _
    rw [hheader, Array.getElem?_modify, h.count other hlt']
    by_cases heq : other = column
    · subst heq
      have hnodup := (h.loop other hcolumn).nodup.of_cons
      obtain ⟨l₁, l₂, hsplit⟩ := List.append_of_mem hcell
      rw [hsplit] at hnodup ⊢
      rw [if_pos rfl, filter_ne_middle hnodup]
      simp
    · rw [if_neg (by omega), hother other hlt' heq]
  · intro other hlt' id hid
    rw [hsame.size_eq]
    exact h.cell_lt other hlt' id (List.mem_of_mem_filter hid)
  · intro other hlt' id hid
    rw [hsame.header_eq]
    exact h.header_cell other hlt' id (List.mem_of_mem_filter hid)

end Unlink

/-- Taking cells out one after the other, and putting them back in the opposite order. -/
theorem foldlM_unlink (h : Threaded cells links) (hclosed : links.Closed) {struck : List Nat}
    (hnodup : struck.Nodup)
    (hmem : ∀ cell ∈ struck, ∃ column < links.numColumns, cell ∈ cells column) :
    ∃ links', struck.foldlM unlink links = .ok links' ∧ links'.Closed ∧ SameRows links links' ∧
      Threaded (fun column => (cells column).filter (· ∉ struck)) links' ∧
      struck.reverse.foldlM relink links' = .ok links := by
  induction struck generalizing links cells with
  | nil =>
    refine ⟨links, rfl, hclosed, .refl links, ?_, rfl⟩
    exact h.congr fun column _ => List.filter_eq_self.2 fun _ _ => by simp
  | cons cell struck ih =>
    obtain ⟨column, hcolumn, hcell⟩ := hmem cell List.mem_cons_self
    have hlt : cell < links.size := h.cell_lt column hcolumn cell hcell
    have hsame : SameRows links (links.unlinked cell) := sameRows_rejoined hclosed hlt
    obtain ⟨hfresh, hnodup⟩ := List.nodup_cons.1 hnodup
    have hmem' : ∀ other ∈ struck, ∃ column < (links.unlinked cell).numColumns,
        other ∈ (cells column).filter (· ≠ cell) := by
      intro other hother
      obtain ⟨column, hcolumn, hin⟩ := hmem other (List.mem_cons_of_mem cell hother)
      refine ⟨column, hcolumn, List.mem_filter.2 ⟨hin, decide_eq_true ?_⟩⟩
      rintro rfl
      exact hfresh hother
    obtain ⟨links', hfold, hclosed', hsame', hthreaded, hback⟩ :=
      ih (h.unlinked hclosed hcolumn hcell) (closed_unlinked hclosed hlt) hnodup hmem'
    -- The first cell goes back last, into the very links that it was taken out of.
    refine ⟨links', ?_, hclosed', hsame.trans hsame', ?_, ?_⟩
    · rw [List.foldlM_cons, h.unlink_cell hclosed hcolumn hcell, ok_bind, hfold]
    · refine hthreaded.congr fun column _ => ?_
      rw [List.filter_filter]
      refine List.filter_congr fun id _ => ?_
      simp [Bool.and_comm]
    · rw [List.reverse_cons, List.foldlM_append, hback, ok_bind, List.foldlM_cons,
        h.relink_cell hclosed hcolumn hcell]
      rfl

end Threaded

end Links

end ExactCover
