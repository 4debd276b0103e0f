import Mathlib.Data.List.Basic
import ExactCover.Random
/-!
What may be relied on when random numbers are drawn: a number lies between its bounds, and a shuffle
loses nothing. Nothing is said about how likely a draw is.
-/

namespace ExactCover

/-- The draws keep to what was asked for. -/
structure Generator.Lawful (g : Generator) : Prop where
  between_mem : ∀ {low high : Nat} (r : g.State), low ≤ high →
    low ≤ (g.between low high r).1 ∧ (g.between low high r).1 ≤ high
  shuffle_perm : ∀ {α : Type} (items : List α) (r : g.State), (g.shuffle items r).1.Perm items

namespace Random

theorem between_mem {low high : Nat} (r : Random) (h : low ≤ high) :
    low ≤ (between low high r).1 ∧ (between low high r).1 ≤ high := by
  have hlt : (r.below (high - low + 1)).1 < high - low + 1 := r.below_lt (Nat.succ_pos _)
  exact ⟨Nat.le_add_right low _, by simp only [between]; omega⟩

theorem swapIfInBounds_perm {α : Type} (items : Array α) (i j : Nat) :
    (items.swapIfInBounds i j).toList.Perm items.toList := by
  unfold Array.swapIfInBounds
  split
  case isTrue hi =>
    split
    case isTrue hj => exact (Array.swap_perm hi hj).toList
    case isFalse => exact .refl _
  case isFalse => exact .refl _

theorem shuffleStep_perm {α : Type} (items : Array α × Random) (index : Nat) :
    (shuffleStep items index).1.toList.Perm items.1.toList :=
  swapIfInBounds_perm items.1 index _

theorem foldl_shuffleStep_perm {α : Type} (indices : List Nat) (items : Array α × Random) :
    (indices.foldl shuffleStep items).1.toList.Perm items.1.toList := by
  induction indices generalizing items with
  | nil => exact .refl _
  | cons index indices ih => exact (ih _).trans (shuffleStep_perm items index)

theorem shuffle_perm {α : Type} (items : List α) (r : Random) : (shuffle items r).1.Perm items :=
  foldl_shuffleStep_perm _ (items.toArray, r)

theorem generator_lawful : generator.Lawful where
  between_mem := between_mem
  shuffle_perm := shuffle_perm

end Random

end ExactCover
