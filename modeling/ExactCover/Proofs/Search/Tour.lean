import ExactCover.Search.Tour
import ExactCover.Proofs.Attempt
import ExactCover.Proofs.Search.Plain
/-!
Writing down what is entered changes nothing in a search: each tour finds what the search finds.
-/

namespace ExactCover

namespace Remainder

variable {p : Remainder} {selector : Selector} {column levels depth : Nat} {stats : Stats}

theorem result_tourRows {descend : LiveRow → Stats → Tour}
    {plain : LiveRow → Stats → Stats × Option (List Nat)} {lives : List LiveRow}
    (h : ∀ live ∈ lives, ∀ stats, (descend live stats).result = plain live stats) :
    (tourRows descend column lives stats).result = tryRows plain lives stats := by
  induction lives generalizing stats with
  | nil => rfl
  | cons live lives ih =>
    rw [tourRows, tryRows, ← h live List.mem_cons_self]
    generalize (descend live stats).result = result
    obtain ⟨after, found⟩ := result
    cases found with
    | some rows => rfl
    | none => exact ih fun l hl => h l (List.mem_cons_of_mem live hl)

theorem result_tour (selector : Selector) (levels depth : Nat) (p : Remainder) (stats : Stats) :
    (tour selector levels depth p stats).result = search selector levels depth p stats := by
  induction levels generalizing depth p stats with
  | zero => rfl
  | succ levels ih =>
    rw [tour, search]
    cases p.pick selector with
    | none => rfl
    | some column =>
      dsimp only
      split
      · rfl
      · exact result_tourRows fun live _ stats => ih _ _ _

theorem tour_solved (h : p.pick selector = none) : tour selector (levels + 1) depth p stats =
    { result := (stats.enter depth, some []), entered := [[]] } := by
  rw [tour, h]

theorem tour_deadEnd (h : p.pick selector = some column) (hnone : p.candidates column = []) :
    tour selector (levels + 1) depth p stats =
      { result := ((stats.enter depth).deadEnd, none), entered := [[]] } := by
  rw [tour, h]
  simp only [hnone, List.isEmpty_nil, if_true]

def tourBelow (selector : Selector) (levels depth column : Nat) (p : Remainder) (live : LiveRow)
    (stats : Stats) : Tour :=
  tour selector levels (depth + 1) (p.select live)
    (stats.tryRow ((p.strike column).costAll (others live column)))

def tourBranch (selector : Selector) (levels depth column : Nat) (p : Remainder) (stats : Stats) :
    Tour :=
  tourRows (p.tourBelow selector levels depth column) column (p.candidates column)
    ((stats.enter depth).update (p.cost column))

theorem tour_branch (h : p.pick selector = some column) (hsome : p.candidates column ≠ []) :
    tour selector (levels + 1) depth p stats =
      { result := (tourBranch selector levels depth column p stats).result,
        entered := [] :: (tourBranch selector levels depth column p stats).entered } := by
  have hempty : (p.candidates column).isEmpty = false := by simpa using hsome
  rw [tour, h]
  simp only [hempty, Bool.false_eq_true, if_false]
  rfl

end Remainder

namespace Recursive

theorem visit_tourRows {descend : Nat → Links → Stats → Except Fault Tour}
    {plain : Links → Stats → Except Fault Visit}
    (h : ∀ cell links stats, Tour.visit <$> descend cell links stats = plain links stats)
    (column steps cell : Nat) (links : Links) (stats : Stats) :
    Tour.visit <$> tourRows descend column steps cell links stats =
      tryRows plain column steps cell links stats := by
  induction steps generalizing cell links stats with
  | zero =>
    rw [tourRows.eq_def, tryRows.eq_def]
    by_cases hend : cell = column
    · simp only [hend, if_true, map_bind, map_pure]
    · simp only [hend, if_false]
      rfl
  | succ steps ih =>
    rw [tourRows, tryRows]
    by_cases hend : cell = column
    · simp only [hend, if_true, map_bind, map_pure]
    · simp only [hend, if_false, map_bind]
      refine bind_congr ?_
      rintro ⟨covered, updates⟩
      simp only [← h cell, bind_map_left]
      refine bind_congr fun below => ?_
      cases below.visit.found with
      | some cells => rfl
      | none => simp only [map_bind, bind_pure_comp, Functor.map_map, ← ih]

/-- The tour of the recursion ends as the recursion ends, with a fault or without. -/
theorem visit_tour (selector : Selector) (levels : Nat) (selected : List Nat) (links : Links)
    (stats : Stats) : Tour.visit <$> tour selector levels selected links stats =
      search selector levels selected.length links stats := by
  induction levels generalizing selected links stats with
  | zero => rfl
  | succ levels ih =>
    have hdescend : ∀ cell links stats,
        Tour.visit <$> tour selector levels (selected ++ [cell]) links stats =
          search selector levels (selected.length + 1) links stats := by
      intro cell links stats
      rw [ih, List.length_append, List.length_singleton]
    rw [tour, search, map_bind]
    refine bind_congr fun pick => ?_
    cases pick with
    | none => rfl
    | some column =>
      simp only [map_bind]
      refine bind_congr fun count => ?_
      split
      · rfl
      · simp only [map_bind, bind_pure_comp, Functor.map_map, ← visit_tourRows hdescend]

end Recursive

end ExactCover
