/-!
The members of a list of naturals in ascending order, each of them once. Its length shows whether
the list repeats itself.
-/

namespace ExactCover

def dropRepeats : List Nat → List Nat
  | [] => []
  | a :: rest => if rest.head? = some a then dropRepeats rest else a :: dropRepeats rest

theorem mem_dropRepeats {x : Nat} {l : List Nat} : x ∈ dropRepeats l ↔ x ∈ l := by
  induction l with
  | nil => rfl
  | cons a rest ih =>
    unfold dropRepeats
    split
    case isTrue h => grind [List.mem_of_mem_head?]
    case isFalse => rw [List.mem_cons, List.mem_cons, ih]

theorem dropRepeats_sublist (l : List Nat) : (dropRepeats l).Sublist l := by
  induction l with
  | nil => exact .slnil
  | cons a rest ih =>
    unfold dropRepeats
    split
    case isTrue => exact ih.cons a
    case isFalse => exact ih.cons_cons a

theorem pairwise_dropRepeats {l : List Nat} (h : l.Pairwise (· ≤ ·)) :
    (dropRepeats l).Pairwise (· < ·) := by
  induction l with
  | nil => exact .nil
  | cons a rest ih =>
    obtain ⟨hle, hrest⟩ := List.pairwise_cons.1 h
    unfold dropRepeats
    split
    case isTrue => exact ih hrest
    case isFalse hhead =>
      refine .cons (fun x hx => ?_) (ih hrest)
      cases rest with
      | nil => cases hx
      | cons b rest =>
        have hab : a ≤ b := hle b List.mem_cons_self
        have hne : b ≠ a := fun heq => hhead (congrArg some heq)
        have hbx : b ≤ x := by
          rcases List.mem_cons.1 (mem_dropRepeats.1 hx) with rfl | hx
          · exact Nat.le_refl _
          · exact (List.pairwise_cons.1 hrest).1 x hx
        omega

theorem dropRepeats_eq_self {l : List Nat} (h : l.Nodup) : dropRepeats l = l := by
  induction l with
  | nil => rfl
  | cons a rest ih =>
    obtain ⟨hnot, hrest⟩ := List.nodup_cons.1 h
    unfold dropRepeats
    split
    case isTrue hhead => exact absurd (List.mem_of_mem_head? hhead) hnot
    case isFalse => rw [ih hrest]

/-- The members of a list in ascending order, each once. -/
def ascend (l : List Nat) : List Nat := dropRepeats l.mergeSort

theorem mem_ascend {x : Nat} {l : List Nat} : x ∈ ascend l ↔ x ∈ l :=
  mem_dropRepeats.trans List.mem_mergeSort

theorem pairwise_mergeSort_le (l : List Nat) : l.mergeSort.Pairwise (· ≤ ·) := by
  have h := @List.pairwise_mergeSort Nat (fun a b => decide (a ≤ b))
    (fun a b c => by simpa using Nat.le_trans) (fun a b => by simpa using Nat.le_total a b) l
  simpa using h

theorem pairwise_ascend (l : List Nat) : (ascend l).Pairwise (· < ·) :=
  pairwise_dropRepeats (pairwise_mergeSort_le l)

theorem length_ascend_le (l : List Nat) : (ascend l).length ≤ l.length :=
  Nat.le_trans (dropRepeats_sublist _).length_le (Nat.le_of_eq (List.length_mergeSort l))

theorem length_ascend_eq_iff {l : List Nat} : (ascend l).length = l.length ↔ l.Nodup := by
  have hperm := List.mergeSort_perm l fun a b => decide (a ≤ b)
  constructor
  · intro h
    have heq : ascend l = l.mergeSort :=
      (dropRepeats_sublist _).eq_of_length (h.trans hperm.length_eq.symm)
    refine hperm.nodup_iff.1 ?_
    rw [← heq]
    exact (pairwise_ascend l).imp Nat.ne_of_lt
  · intro h
    rw [ascend, dropRepeats_eq_self (hperm.nodup_iff.2 h)]
    exact hperm.length_eq

end ExactCover
