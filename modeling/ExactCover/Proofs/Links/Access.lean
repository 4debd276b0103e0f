import Mathlib.Tactic.Basic
import ExactCover.Links.Build
import ExactCover.Links.Cover
import ExactCover.Proofs.Attempt
/-!
Reading the arena as a function on all numbers. A number without a node reads as a node linked to
itself only, so the links of an arena are total functions, and a change of one node is a change of
these functions in one place.
-/

namespace ExactCover

namespace Links

variable {links links' : Links} {id other : Nat}

/-- The node at a place; where there is none, one that is linked to nothing but itself. -/
def get (links : Links) (id : Nat) : Node := links.nodes[id]?.getD (.detached id id none)

def left (links : Links) (id : Nat) : Nat := (links.get id).left

def right (links : Links) (id : Nat) : Nat := (links.get id).right

def up (links : Links) (id : Nat) : Nat := (links.get id).up

def down (links : Links) (id : Nat) : Nat := (links.get id).down

def header (links : Links) (id : Nat) : Nat := (links.get id).column

def row (links : Links) (id : Nat) : Option Nat := (links.get id).row

theorem node_eq_ok (h : id < links.size) : links.node id = .ok (links.get id) := by
  have hid : id < links.nodes.size := h
  simp [node, get, hid]

theorem get_of_size_le (h : ¬ id < links.size) : links.get id = .detached id id none := by
  have hid : links.nodes.size ≤ id := Nat.le_of_not_lt h
  simp [get, hid]

theorem ext_get (hsize : links.size = links'.size)
    (hget : ∀ id < links.size, links.get id = links'.get id) (hcounts : links.counts = links'.counts)
    (hcolumns : links.numColumns = links'.numColumns) (hrows : links.numRows = links'.numRows) :
    links = links' := by
  have hnodes : links.nodes = links'.nodes := by
    apply Array.ext hsize
    intro id hid hid'
    have := hget id hid
    simpa [get, hid, hid'] using this
  cases links
  cases links'
  simp_all

def update (links : Links) (id : Nat) (change : Node → Node) : Links :=
  { links with nodes := links.nodes.modify id change }

@[simp] theorem size_update (change : Node → Node) : (links.update id change).size = links.size := by
  simp [update, size]

theorem get_update (h : id < links.size) (change : Node → Node) (other : Nat) :
    (links.update id change).get other =
      if other = id then change (links.get other) else links.get other := by
  have hid : id < links.nodes.size := h
  unfold get update
  rw [Array.getElem?_modify]
  by_cases heq : id = other
  · subst heq
    simp [hid]
  · rw [if_neg heq, if_neg (Ne.symm heq)]

theorem modifyNode_eq (h : id < links.size) (change : Node → Node) :
    links.modifyNode id change = .ok (links.update id change) := if_pos h

theorem modifyNode_bind {α : Type} (h : id < links.size) (change : Node → Node)
    (further : Links → Except Fault α) :
    (links.modifyNode id change >>= further) = further (links.update id change) := by
  rw [modifyNode_eq h, ok_bind]

theorem count_eq_ok {column count : Nat} (h : links.counts[column]? = some count) :
    links.count column = .ok count := by
  simp [Links.count, h]

theorem decreaseCount_eq {column count : Nat} (h : links.counts[column]? = some (count + 1)) :
    links.decreaseCount column =
      .ok { links with counts := links.counts.modify column (· - 1) } := by
  simp [decreaseCount, Links.count, h, pure, Except.pure, bind, Except.bind]

theorem increaseCount_eq {column count : Nat} (h : links.counts[column]? = some count)
    (hlimit : count < links.size) :
    links.increaseCount column =
      .ok { links with counts := links.counts.modify column (· + 1) } := by
  have hsmall : ¬ links.countLimit ≤ count := by
    unfold countLimit
    omega
  simp [increaseCount, Links.count, h, hsmall, pure, Except.pure, bind, Except.bind]

theorem eq_of_decreaseCount {column : Nat} (h : links.decreaseCount column = .ok links') :
    links' = { links with counts := links.counts.modify column (· - 1) } := by
  obtain ⟨count, -, h⟩ := bind_eq_ok_iff.1 h
  by_cases hzero : count = 0
  · simp [hzero, throw, throwThe, MonadExceptOf.throw, bind, Except.bind] at h
  · simpa [hzero, pure, Except.pure, eq_comm] using h

theorem eq_of_increaseCount {column : Nat} (h : links.increaseCount column = .ok links') :
    links' = { links with counts := links.counts.modify column (· + 1) } := by
  obtain ⟨count, -, h⟩ := bind_eq_ok_iff.1 h
  by_cases hlimit : links.countLimit ≤ count
  · simp [hlimit, throw, throwThe, MonadExceptOf.throw, bind, Except.bind] at h
  · simpa [hlimit, pure, Except.pure, eq_comm] using h

theorem fault_of_decreaseCount {column : Nat} {fault : Fault}
    (h : links.decreaseCount column = .error fault)
    (hcolumn : column < links.counts.size) : fault = .countUnderflow column := by
  have hcount : links.count column = .ok links.counts[column] := by simp [count, hcolumn]
  rw [decreaseCount, hcount, ok_bind] at h
  by_cases hzero : links.counts[column] = 0
  · rw [if_pos hzero] at h
    exact (Except.error.inj h).symm
  · rw [if_neg hzero] at h
    cases h

theorem fault_of_increaseCount {column : Nat} {fault : Fault}
    (h : links.increaseCount column = .error fault)
    (hcolumn : column < links.counts.size) : fault = .countOverflow column := by
  have hcount : links.count column = .ok links.counts[column] := by simp [count, hcolumn]
  rw [increaseCount, hcount, ok_bind] at h
  by_cases hlimit : links.countLimit ≤ links.counts[column]
  · rw [if_pos hlimit] at h
    exact (Except.error.inj h).symm
  · rw [if_neg hlimit] at h
    cases h

end Links

end ExactCover
