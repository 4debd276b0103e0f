import ExactCover.Proofs.Links.Build
/-!
The first stage of the building: the root and a ring of headers around it, each a column of its own
without cells.
-/

namespace ExactCover

namespace Links

variable {links : Links}

/-- The stage of the building that has the first `count` headers and no cell. -/
structure ShowsHeaders (numColumns numRows count : Nat) (links : Links) : Prop where
  size_eq : links.size = count + 1
  counts_eq : links.counts = Array.replicate (numColumns + 1) 0
  numColumns_eq : links.numColumns = numColumns
  numRows_eq : links.numRows = numRows
  closed : links.Closed
  up_eq : ∀ id, links.up id = id
  down_eq : ∀ id, links.down id = id
  header_eq : ∀ id, links.header id = id
  row_eq : ∀ id, links.row id = none
  headers : Loop links.right links.left root ((List.range count).map (· + 1))

theorem mem_headers {count id : Nat} : id ∈ root :: (List.range count).map (· + 1) ↔ id ≤ count := by
  simp only [List.mem_cons, List.mem_map, List.mem_range, root]
  constructor
  · rintro (rfl | ⟨column, hcolumn, rfl⟩)
    · exact Nat.zero_le count
    · exact hcolumn
  · intro h
    cases id with
    | zero => exact .inl rfl
    | succ column => exact .inr ⟨column, h, rfl⟩

theorem get_bare (numColumns numRows id : Nat) :
    (bare numColumns numRows).get id = .detached id id none := by
  cases id <;> rfl

theorem showsHeaders_bare (numColumns numRows : Nat) :
    ShowsHeaders numColumns numRows 0 (bare numColumns numRows) := by
  have hget := get_bare numColumns numRows
  have hsame : ∀ (f : Node → Nat), (∀ id, f (.detached id id none) = id) →
      ∀ id, f ((bare numColumns numRows).get id) = id := by
    intro f hf id
    rw [hget, hf]
  have hleft := hsame Node.left fun _ => rfl
  have hright := hsame Node.right fun _ => rfl
  have hup := hsame Node.up fun _ => rfl
  have hdown := hsame Node.down fun _ => rfl
  refine ⟨rfl, rfl, rfl, rfl, ⟨?_, ?_, ?_, ?_, ?_, ?_⟩, hup, hdown, hsame Node.column fun _ => rfl,
    ?_, .nil (hright root) (hleft root)⟩
  · intro id hid
    rwa [left, hleft]
  · intro id hid
    rwa [right, hright]
  · intro id hid
    rwa [up, hup]
  · intro id hid
    rwa [down, hdown]
  · intro id
    rw [up, hup]
  · intro id
    rw [down, hdown]
  · intro id
    rw [row, hget]
    rfl

theorem ShowsHeaders.appendHeader {numColumns numRows count : Nat}
    (h : ShowsHeaders numColumns numRows count links) :
    ShowsHeaders numColumns numRows (count + 1) links.appendHeader := by
  have hget := get_addNode links links.size none
  have hclosed : (links.addNode links.size none).Closed := h.closed.addNode _ _
  have hroot : root < (links.addNode links.size none).size := by
    rw [size_addNode]
    exact Nat.zero_lt_succ _
  have hnew : links.size < (links.addNode links.size none).size := by simp
  have hall := get_insertBefore hroot (hclosed.left_lt root hroot) hnew
  have hold : ∀ id, id ≤ count → (links.addNode links.size none).get id = links.get id := by
    intro id hid
    rw [hget, if_neg]
    have := h.size_eq
    omega
  have hloop : Loop (links.addNode links.size none).right (links.addNode links.size none).left root
      ((List.range count).map (· + 1)) := by
    refine h.headers.congr (fun id hid => ?_) (fun id hid => ?_)
    · rw [right, right, hold id (mem_headers.1 hid)]
    · rw [left, left, hold id (mem_headers.1 hid)]
  have hsame : ∀ (f : Node → Nat), (∀ id, f (links.get id) = id) →
      f (.detached links.size links.size none) = links.size →
      ∀ id, f ((links.addNode links.size none).get id) = id := by
    intro f hf hsize id
    rw [hget]
    split
    case isTrue heq => rw [hsize, heq]
    case isFalse => exact hf id
  refine ⟨?_, ?_, ?_, ?_, hclosed.insertBefore hroot hnew, ?_, ?_, ?_, ?_, ?_⟩
  · rw [Links.appendHeader, size_insertBefore, size_addNode, h.size_eq]
  · rw [Links.appendHeader, counts_insertBefore]
    exact h.counts_eq
  · rw [Links.appendHeader, numColumns_insertBefore]
    exact h.numColumns_eq
  · rw [Links.appendHeader, numRows_insertBefore]
    exact h.numRows_eq
  · intro id
    rw [up, Links.appendHeader, hall]
    exact hsame Node.up h.up_eq rfl id
  · intro id
    rw [down, Links.appendHeader, hall]
    exact hsame Node.down h.down_eq rfl id
  · intro id
    rw [header, Links.appendHeader, hall]
    exact hsame Node.column h.header_eq rfl id
  · intro id
    rw [row, Links.appendHeader, hall]
    change ((links.addNode links.size none).get id).row = none
    rw [hget]
    split
    case isTrue => rfl
    case isFalse => exact h.row_eq id
  · have hsize : links.size = count + 1 := h.size_eq
    have hfresh : links.size ∉ root :: (List.range count).map (· + 1) := by
      rw [mem_headers]
      omega
    have hne : ∀ id ∈ root :: (List.range count).map (· + 1), id ≠ links.size := by
      rintro id hid rfl
      exact hfresh hid
    rw [List.range_succ, List.map_append, List.map_singleton, ← hsize]
    refine hloop.append hfresh ?_ ?_ ?_ ?_
    · intro id hid
      rw [Links.appendHeader, right_insertBefore hclosed hnew hroot, if_neg (hne id hid)]
    · intro id hid
      rw [Links.appendHeader, left_insertBefore hclosed hnew hroot, if_neg (hne id hid)]
    · rw [Links.appendHeader, right_insertBefore hclosed hnew hroot, if_pos rfl, if_neg]
      exact (hne _ (hloop.prev_mem List.mem_cons_self)).symm
    · rw [Links.appendHeader, left_insertBefore hclosed hnew hroot, if_pos rfl, if_neg]
      exact (hne root List.mem_cons_self).symm

theorem showsHeaders_repeat (numColumns numRows count : Nat) :
    ShowsHeaders numColumns numRows count
      (Nat.repeat Links.appendHeader count (bare numColumns numRows)) := by
  induction count with
  | zero => exact showsHeaders_bare numColumns numRows
  | succ count ih => exact ih.appendHeader

end Links

end ExactCover
