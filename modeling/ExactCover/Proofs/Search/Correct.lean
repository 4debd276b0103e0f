import ExactCover.Matrix.Samples
import ExactCover.Proofs.Search.Solve
import ExactCover.Proofs.Solution
/-!
What may be relied on when the links of a matrix are searched: the answer is right, the links come
back as they were, and neither the driver nor the links themselves show in the result.
-/

namespace ExactCover

namespace Matrix

variable {m : Matrix} {selector : Selector} {rows : List Nat}

theorem remainder_answers (m : Matrix) (struck : List Nat) (selector : Selector) :
    (m.remainder struck).Answers ((m.remainder struck).solve selector).2 :=
  Remainder.search_answers selector (fun _ hlive => ones_subset_columns hlive)
    (Nat.lt_succ_self _) 0 {}

theorem isSome_solve_iff (m : Matrix) (selector : Selector) :
    ((m.remainder []).solve selector).2.isSome = true ↔ m.HasExactCover := by
  have hanswer := m.remainder_answers [] selector
  rw [hasExactCover_iff]
  generalize ((m.remainder []).solve selector).2 = answer at hanswer
  cases hanswer with
  | @found lives h _ => exact ⟨fun _ => ⟨lives, h⟩, fun _ => rfl⟩
  | failed hnot => exact ⟨fun h => by simp at h, fun ⟨lives, h⟩ => absurd h (hnot lives)⟩

theorem isExactCover_of_solve (h : ((m.remainder []).solve selector).2 = some rows) :
    m.IsExactCover rows ∧ ∀ row ∈ rows, ∃ column, m.isSet row column = true := by
  have hanswer := m.remainder_answers [] selector
  rw [h] at hanswer
  cases hanswer with
  | found hcover hones =>
    refine ⟨isExactCover_map_row hcover, fun row hrow => ?_⟩
    obtain ⟨live, hlive, rfl⟩ := List.mem_map.1 hrow
    obtain ⟨column, hcolumn⟩ := List.exists_mem_of_ne_nil _ (hones live hlive)
    exact ⟨column, (isSet_row (mem_liveRows_of_cover hcover hlive)).2 hcolumn⟩

end Matrix

namespace Links

/-- Solves again and again, each time on the links that the last time has left. -/
def solveTimes (driver : Driver) (selector : Selector) :
    (count : Nat) → Links → Except Fault (List Outcome)
  | 0, _ => .ok []
  | count + 1, links => do
    let outcome ← links.solve driver selector
    let further ← solveTimes driver selector count outcome.links
    return outcome :: further

/-- The search is totally correct: it always returns, it finds rows exactly when the matrix has an
exact cover, and what it finds is one, without empty rows. -/
theorem solve_finds_iff_hasExactCover (m : Matrix) (driver : Driver) (selector : Selector) :
    ∃ outcome, (ofMatrix m).solve driver selector = .ok outcome ∧
      (outcome.solution.isSome = true ↔ m.HasExactCover) ∧
      ∀ solution, outcome.solution = some solution →
        solution.rows.Nodup ∧
        (∀ row ∈ solution.rows, row < m.numRows ∧ ∃ column, m.isSet row column = true) ∧
        (∀ column < m.numColumns, ∃ row ∈ solution.rows, m.isSet row column = true ∧
          ∀ other ∈ solution.rows, m.isSet other column = true → other = row) ∧
        solution.verify m = true := by
  refine ⟨_, (covered_ofMatrix m).solve_eq driver selector, ?_, ?_⟩
  · rw [← m.isSome_solve_iff selector]
    simp [outcome]
  · intro solution hsolution
    obtain ⟨rows, hrows, rfl⟩ := Option.map_eq_some_iff.1 hsolution
    obtain ⟨hcover, hones⟩ := Matrix.isExactCover_of_solve hrows
    exact ⟨hcover.nodup, fun row hrow => ⟨hcover.lt_numRows row hrow, hones row hrow⟩,
      hcover.exists_unique, Solution.verify_iff.2 hcover⟩

/-- Whatever columns are covered, a search gives back the links that it was given, so that every
further search returns the same. -/
theorem solve_restores (m : Matrix) {columns : List Nat} (hnodup : columns.Nodup)
    (hlt : ∀ column ∈ columns, column < m.numColumns) :
    ∃ links, (ofMatrix m).coverEach columns = .ok links ∧
      ∀ (driver : Driver) (selector : Selector), ∃ outcome,
        links.solve driver selector = .ok outcome ∧ outcome.links = links ∧
        ∀ count, links.solveTimes driver selector count = .ok (List.replicate count outcome) := by
  obtain ⟨links, hcover, hcovered⟩ :=
    (covered_ofMatrix m).coverEach hnodup hlt fun _ _ => List.not_mem_nil
  refine ⟨links, hcover, fun driver selector => ?_⟩
  have hsolve := hcovered.solve_eq driver selector
  refine ⟨_, hsolve, rfl, fun count => ?_⟩
  induction count with
  | zero => rfl
  | succ count ih =>
    rw [solveTimes, hsolve, ok_bind]
    change (solveTimes driver selector count links >>= _) = _
    rw [ih, ok_bind]
    rfl

theorem solve_restores_fourRows :
    [2, 0].Nodup ∧ (∀ column ∈ [2, 0], column < fourRows.numColumns) ∧
    ∃ links, (ofMatrix fourRows).coverEach [2, 0] = .ok links ∧
      ∀ (driver : Driver) (selector : Selector), ∃ outcome,
        links.solve driver selector = .ok outcome ∧ outcome.links = links ∧
        ∀ count, links.solveTimes driver selector count = .ok (List.replicate count outcome) :=
  ⟨by decide, by decide, solve_restores fourRows (by decide) (by decide)⟩

/-- Both drivers return the same rows in the same order and the same counts, whatever columns are
covered, and the machine stops by itself. -/
theorem drivers_agree (m : Matrix) (selector : Selector) {columns : List Nat}
    (hnodup : columns.Nodup) (hlt : ∀ column ∈ columns, column < m.numColumns) :
    ∃ links outcome, (ofMatrix m).coverEach columns = .ok links ∧
      links.solve .recursive selector = .ok outcome ∧
      links.solve .iterative selector = .ok outcome ∧
      ∃ final, Machine.Reaches selector (Machine.start links) final ∧ final.Stopped := by
  obtain ⟨links, hcover, hcovered⟩ :=
    (covered_ofMatrix m).coverEach hnodup hlt fun _ _ => List.not_mem_nil
  obtain ⟨final, hreaches, hstopped, -, -⟩ := hcovered.machine_stops selector
  exact ⟨links, _, hcover, hcovered.solve_eq .recursive selector,
    hcovered.solve_eq .iterative selector, final, hreaches, hstopped⟩

theorem drivers_agree_fourRows :
    [2, 0].Nodup ∧ (∀ column ∈ [2, 0], column < fourRows.numColumns) ∧
    ∃ links outcome, (ofMatrix fourRows).coverEach [2, 0] = .ok links ∧
      links.solve .recursive .leftmost = .ok outcome ∧
      links.solve .iterative .leftmost = .ok outcome ∧
      ∃ final, Machine.Reaches .leftmost (Machine.start links) final ∧ final.Stopped :=
  ⟨by decide, by decide, drivers_agree fourRows .leftmost (by decide) (by decide)⟩

/-- The search on the links of a matrix is the plain search: the same rows in the same order, with
the same counts. The plain search never comes to the last of its levels. -/
theorem solve_refines_plain (m : Matrix) (selector : Selector) :
    ∃ outcome, (ofMatrix m).solve .recursive selector = .ok outcome ∧
      (outcome.stats, outcome.solution.map Solution.rows) = m.solvePlain selector ∧
      ∀ more, Remainder.search selector (m.numColumns + 1 + more) 0 (.ofMatrix m) {} =
        m.solvePlain selector := by
  refine ⟨_, (covered_ofMatrix m).solve_eq .recursive selector, ?_, fun more => ?_⟩
  · have hrows : Solution.rows ∘ Solution.mk = id := rfl
    rw [m.solvePlain_eq selector, outcome, Option.map_map, hrows, Option.map_id]
    rfl
  · have hlength : (Remainder.ofMatrix m).columns.length = m.numColumns := List.length_range
    exact Remainder.search_eq_of_lt (by omega) (by omega)

end Links

end ExactCover
