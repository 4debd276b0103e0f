import Mathlib.Data.List.Nodup
import ExactCover.Proofs.Links.Columns
import ExactCover.Proofs.Links.Layout
/-!
What the steps of the building do to the links: a new node, a node spliced into a row, a cell hung
below a column. None of them leads out of the arena.
-/

namespace ExactCover

namespace Links

variable {links : Links} {anchor header id column : Nat} {row : Option Nat}

@[simp] theorem size_addNode : (links.addNode column row).size = links.size + 1 := by
  simp [addNode, size]

theorem get_addNode (links : Links) (column : Nat) (row : Option Nat) (id : Nat) :
    (links.addNode column row).get id =
      if id = links.size then .detached links.size column row else links.get id := by
  unfold get addNode size
  rw [Array.getElem?_push]
  split <;> rfl

theorem get_insertBefore (hanchor : anchor < links.size) (hleft : links.left anchor < links.size)
    (hid : id < links.size) (other : Nat) :
    (links.insertBefore anchor id).get other = { links.get other with
      right := if other = links.left anchor then id else
        if other = id then anchor else links.right other
      left := if other = anchor then id else
        if other = id then links.left anchor else links.left other } := by
  have hnode : links.nodes[anchor]? = some (links.get anchor) := by
    have hanchor' : anchor < links.nodes.size := hanchor
    simp [get, hanchor']
  have heq : links.insertBefore anchor id = ((links.update id fun new =>
      { new with left := links.left anchor, right := anchor }).update (links.left anchor) fun last =>
      { last with right := id }).update anchor fun first => { first with left := id } := by
    rw [insertBefore, hnode]
    rfl
  rw [heq, get_update (by simpa using hanchor), get_update (by simpa using hleft), get_update hid]
  split <;> split <;> split <;> simp_all [left, right]

theorem get_hang (hheader : header < links.size) (hup : links.up header < links.size)
    (hid : id < links.size) (other : Nat) :
    (links.hang header id).get other = { links.get other with
      down := if other = links.up header then id else
        if other = id then header else links.down other
      up := if other = header then id else
        if other = id then links.up header else links.up other } := by
  have hnode : links.nodes[header]? = some (links.get header) := by
    have hheader' : header < links.nodes.size := hheader
    simp [get, hheader']
  have heq : (links.hang header id).get other = (((links.update id fun new =>
      { new with up := links.up header, down := header }).update (links.up header) fun bottom =>
      { bottom with down := id }).update header fun top => { top with up := id }).get other := by
    rw [hang, hnode]
    rfl
  rw [heq, get_update (by simpa using hheader), get_update (by simpa using hup), get_update hid]
  split <;> split <;> split <;> simp_all [up, down]

section Reading

variable (hclosed : links.Closed) (hid : id < links.size)
include hclosed hid

theorem right_insertBefore (hanchor : anchor < links.size) (other : Nat) :
    (links.insertBefore anchor id).right other = if other = links.left anchor then id else
      if other = id then anchor else links.right other := by
  rw [right, get_insertBefore hanchor (hclosed.left_lt anchor hanchor) hid]

theorem left_insertBefore (hanchor : anchor < links.size) (other : Nat) :
    (links.insertBefore anchor id).left other = if other = anchor then id else
      if other = id then links.left anchor else links.left other := by
  rw [left, get_insertBefore hanchor (hclosed.left_lt anchor hanchor) hid]

theorem down_hang (hheader : header < links.size) (other : Nat) :
    (links.hang header id).down other = if other = links.up header then id else
      if other = id then header else links.down other := by
  rw [down, get_hang hheader (hclosed.up_lt header hheader) hid]

theorem up_hang (hheader : header < links.size) (other : Nat) :
    (links.hang header id).up other = if other = header then id else
      if other = id then links.up header else links.up other := by
  rw [up, get_hang hheader (hclosed.up_lt header hheader) hid]

theorem header_hang (hheader : header < links.size) (other : Nat) :
    (links.hang header id).header other = links.header other := by
  rw [Links.header, get_hang hheader (hclosed.up_lt header hheader) hid]
  rfl

end Reading

@[simp] theorem counts_insertBefore : (links.insertBefore anchor id).counts = links.counts := by
  unfold insertBefore
  split <;> rfl

@[simp] theorem numColumns_insertBefore :
    (links.insertBefore anchor id).numColumns = links.numColumns := by
  unfold insertBefore
  split <;> rfl

@[simp] theorem numRows_insertBefore :
    (links.insertBefore anchor id).numRows = links.numRows := by
  unfold insertBefore
  split <;> rfl

@[simp] theorem size_insertBefore : (links.insertBefore anchor id).size = links.size := by
  unfold insertBefore
  split <;> simp [size]

@[simp] theorem numColumns_hang : (links.hang header id).numColumns = links.numColumns := by
  unfold hang
  split <;> rfl

@[simp] theorem numRows_hang : (links.hang header id).numRows = links.numRows := by
  unfold hang
  split <;> rfl

@[simp] theorem size_hang : (links.hang header id).size = links.size := by
  unfold hang
  split <;> simp [size]

theorem counts_hang (hheader : header < links.size) :
    (links.hang header id).counts = links.counts.modify header (· + 1) := by
  have hheader' : header < links.nodes.size := hheader
  simp [hang, hheader']

theorem Closed.up_ne_size (h : links.Closed) (hid : id ≠ links.size) : links.up id ≠ links.size := by
  by_cases hlt : id < links.size
  · exact Nat.ne_of_lt (h.up_lt id hlt)
  · rwa [up, get_of_size_le hlt]

theorem Closed.down_ne_size (h : links.Closed) (hid : id ≠ links.size) :
    links.down id ≠ links.size := by
  by_cases hlt : id < links.size
  · exact Nat.ne_of_lt (h.down_lt id hlt)
  · rwa [down, get_of_size_le hlt]

theorem Closed.addNode (h : links.Closed) (column : Nat) (row : Option Nat) :
    (links.addNode column row).Closed := by
  have hget := get_addNode links column row
  have hlt : ∀ (f : Node → Nat), (∀ id < links.size, f (links.get id) < links.size) →
      (f (.detached links.size column row) = links.size) →
      ∀ id < (links.addNode column row).size,
        f ((links.addNode column row).get id) < (links.addNode column row).size := by
    intro f hf hnew id hid
    rw [size_addNode] at hid ⊢
    rw [hget]
    split
    case isTrue => rw [hnew]; omega
    case isFalse hne =>
      have := hf id (by omega)
      omega
  refine ⟨hlt Node.left h.left_lt rfl, hlt Node.right h.right_lt rfl, hlt Node.up h.up_lt rfl,
    hlt Node.down h.down_lt rfl, ?_, ?_⟩
  · intro id
    by_cases hid : id = links.size
    · simp [Links.header, up, hget, hid, Node.detached]
    · have hup : (links.addNode column row).up id = links.up id := by rw [up, hget, if_neg hid]; rfl
      rw [hup, Links.header, Links.header, hget, hget, if_neg hid, if_neg (h.up_ne_size hid)]
      exact h.header_up id
  · intro id
    by_cases hid : id = links.size
    · simp [Links.header, down, hget, hid, Node.detached]
    · have hdown : (links.addNode column row).down id = links.down id := by
        rw [down, hget, if_neg hid]
        rfl
      rw [hdown, Links.header, Links.header, hget, hget, if_neg hid, if_neg (h.down_ne_size hid)]
      exact h.header_down id

theorem Closed.insertBefore (h : links.Closed) (hanchor : anchor < links.size)
    (hid : id < links.size) : (links.insertBefore anchor id).Closed := by
  have hleft := h.left_lt anchor hanchor
  have hget := get_insertBefore hanchor hleft hid
  refine ⟨?_, ?_, ?_, ?_, ?_, ?_⟩
  · intro other hother
    rw [size_insertBefore] at hother ⊢
    rw [left_insertBefore h hid hanchor]
    split_ifs
    · exact hid
    · exact hleft
    · exact h.left_lt other hother
  · intro other hother
    rw [size_insertBefore] at hother ⊢
    rw [right_insertBefore h hid hanchor]
    split_ifs
    · exact hid
    · exact hanchor
    · exact h.right_lt other hother
  · intro other hother
    rw [size_insertBefore] at hother ⊢
    simpa only [up, hget] using h.up_lt other hother
  · intro other hother
    rw [size_insertBefore] at hother ⊢
    simpa only [down, hget] using h.down_lt other hother
  · intro other
    simpa only [Links.header, up, hget] using h.header_up other
  · intro other
    simpa only [Links.header, down, hget] using h.header_down other

theorem sameColumns_insertBefore (h : links.Closed) (hanchor : anchor < links.size)
    (hid : id < links.size) : SameColumns links (links.insertBefore anchor id) := by
  have hget := get_insertBefore hanchor (h.left_lt anchor hanchor) hid
  refine ⟨⟨size_insertBefore, ?_, numColumns_insertBefore, numRows_insertBefore, ?_, ?_⟩,
    counts_insertBefore, ?_, ?_⟩
  · rw [counts_insertBefore]
  all_goals
    intro other
    simp only [Links.header, Links.row, up, down, hget]

theorem Closed.hang (h : links.Closed) (hheader : header < links.size) (hid : id < links.size)
    (hsame : links.header id = links.header header) : (links.hang header id).Closed := by
  have hup := h.up_lt header hheader
  have hget := get_hang hheader hup hid
  refine ⟨?_, ?_, ?_, ?_, ?_, ?_⟩
  · intro other hother
    rw [size_hang] at hother ⊢
    simpa only [left, hget] using h.left_lt other hother
  · intro other hother
    rw [size_hang] at hother ⊢
    simpa only [right, hget] using h.right_lt other hother
  · intro other hother
    rw [size_hang] at hother ⊢
    rw [up_hang h hid hheader]
    split_ifs
    · exact hid
    · exact hup
    · exact h.up_lt other hother
  · intro other hother
    rw [size_hang] at hother ⊢
    rw [down_hang h hid hheader]
    split_ifs
    · exact hid
    · exact hheader
    · exact h.down_lt other hother
  · intro other
    rw [header_hang h hid hheader, header_hang h hid hheader, up_hang h hid hheader]
    split_ifs with hfirst hsecond
    · rw [hfirst]
      exact hsame
    · rw [hsecond]
      exact (h.header_up header).trans hsame.symm
    · exact h.header_up other
  · intro other
    rw [header_hang h hid hheader, header_hang h hid hheader, down_hang h hid hheader]
    split_ifs with hfirst hsecond
    · rw [hfirst]
      exact hsame.trans (h.header_up header).symm
    · rw [hsecond]
      exact hsame.symm
    · exact h.header_down other

end Links

end ExactCover
