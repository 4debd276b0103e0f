import ExactCover.Proofs.Search.Machine
import ExactCover.Proofs.Search.Recursive
/-!
Both drivers return what the plain search finds in what is left of the matrix, with the counts of
the plain search and the links as they were given.
-/

namespace ExactCover

/-- The first exact cover of what is left of a matrix by the plain search, with the counts. -/
def Remainder.solve (p : Remainder) (selector : Selector) : Stats × Option (List Nat) :=
  search selector (p.columns.length + 1) 0 p {}

def Remainder.solveTour (p : Remainder) (selector : Selector) : Tour :=
  tour selector (p.columns.length + 1) 0 p {}

theorem Remainder.result_solveTour (p : Remainder) (selector : Selector) :
    (p.solveTour selector).result = p.solve selector := result_tour _ _ _ _ _

theorem Matrix.solvePlain_eq (m : Matrix) (selector : Selector) :
    m.solvePlain selector = (m.remainder []).solve selector := by
  simp [Matrix.solvePlain, Remainder.solve, Remainder.ofMatrix]

/-- What is returned when the machine has stopped. -/
def Machine.conclusion (final : Machine) : Except Fault Outcome :=
  if final.mode = .solved then
    final.links.conclude final.stats (final.stack.reverse.map Choice.cell)
  else .ok { solution := none, stats := final.stats, links := final.links }

namespace Links

variable {m : Matrix} {links final : Links} {covered cells rows : List Nat}

/-- The outcome of a search that gives the links back and finds what the plain search finds. -/
def outcome (links : Links) (result : Stats × Option (List Nat)) : Outcome :=
  { solution := result.2.map Solution.mk, stats := result.1, links }

theorem Completes.conclude_eq (h : Completes m links final cells rows) (stats : Stats) :
    final.conclude stats cells = .ok (links.outcome (stats, some rows)) := by
  rw [Links.conclude, h.selectedRows, ok_bind, h.deselect, ok_bind]
  rfl

namespace Covered

variable (h : Covered m covered links)
include h

theorem length_columns_lt : (m.remainder covered).columns.length < links.searchLimit := by
  have hle : (m.remainder covered).columns.length ≤ links.size := by
    have hcolumns := List.length_filter_le (· ∉ covered) (List.range m.numColumns)
    have hlt := h.numColumns_eq ▸ h.numColumns_lt
    rw [List.length_range] at hcolumns
    exact Nat.le_trans hcolumns (Nat.le_of_lt hlt)
  have hsize : links.size + 64 < links.searchLimit := Nat.lt_two_pow_self
  omega

theorem effort_lt (selector : Selector) :
    ((m.remainder covered).solve selector).1.effort < links.searchLimit := by
  have heffort := Remainder.effort_search selector
    (Nat.lt_succ_self (m.remainder covered).columns.length) 0 {}
  have hweight := m.weight_remainder_le covered
  have hsize := h.frame.size_eq
  have hpow : 2 ^ ((m.remainder covered).weight + 1) ≤ links.searchLimit :=
    Nat.pow_le_pow_right (by decide) (by omega)
  have hzero : Stats.effort {} = 0 := rfl
  rw [hzero, Nat.zero_add] at heffort
  exact Nat.lt_of_lt_of_le heffort hpow

theorem solve_recursive (selector : Selector) : Recursive.solve selector links =
    .ok (links.outcome ((m.remainder covered).solve selector)) := by
  obtain ⟨visit, hvisit, hagrees⟩ := Recursive.search_agrees selector h
    (Nat.lt_succ_self (m.remainder covered).columns.length) h.length_columns_lt {}
  rw [Recursive.solve, hvisit, ok_bind, Remainder.solve]
  generalize Remainder.search selector _ 0 _ {} = result at hagrees
  cases hagrees with
  | failed stats => rfl
  | found stats hcompletes => exact hcompletes.conclude_eq stats

theorem tour_recursive (selector : Selector) :
    ∃ tour, Recursive.tour selector links.searchLimit [] links {} = .ok tour ∧
      tour.entered = ((m.remainder covered).solveTour selector).entered.map (·.map m.cellOf) := by
  obtain ⟨tour, htour, -, hentered⟩ := Recursive.tour_follows selector h
    (Nat.lt_succ_self (m.remainder covered).columns.length) h.length_columns_lt [] {}
  exact ⟨tour, htour, hentered⟩

/-- The machine stops, and the state in which it stops tells what the plain search finds. Before that
it passes the partial solutions that the plain search enters. -/
theorem machine_passes (selector : Selector) :
    ∃ states final, Machine.Passes selector (Machine.start links) states final ∧ final.Stopped ∧
      final.clock ≤ links.searchLimit ∧
      Machine.descents states =
        ((m.remainder covered).solveTour selector).entered.map (Machine.pushAll m []) ∧
      final.conclusion = .ok (links.outcome ((m.remainder covered).solve selector)) := by
  have heffort := h.effort_lt selector
  have hends := Machine.search_ends selector h
    (Nat.lt_succ_self (m.remainder covered).columns.length) [] {}
  rw [← Remainder.result_solveTour] at heffort ⊢
  rw [Remainder.solveTour] at heffort ⊢
  rw [List.length_nil] at hends
  generalize Remainder.tour selector _ 0 _ {} = tour at hends heffort
  cases hends with
  | failed hpasses hentered =>
    refine ⟨_, _, hpasses.trans (.single ⟨by simp [Machine.Stopped], rfl⟩), .inr rfl, heffort, ?_, rfl⟩
    rw [Machine.descents_append, hentered]
    exact List.append_nil _
  | solved hpasses hcompletes hentered =>
    refine ⟨_, _, hpasses, .inl rfl, Nat.le_of_lt heffort, hentered, ?_⟩
    rw [Machine.conclusion, if_pos rfl, List.append_nil, List.reverse_reverse]
    exact hcompletes.conclude_eq _

theorem machine_stops (selector : Selector) :
    ∃ final, Machine.Reaches selector (Machine.start links) final ∧ final.Stopped ∧
      final.clock ≤ links.searchLimit ∧
      final.conclusion = .ok (links.outcome ((m.remainder covered).solve selector)) := by
  obtain ⟨states, final, hpasses, hstopped, hclock, -, hresult⟩ := h.machine_passes selector
  exact ⟨final, hpasses.reaches, hstopped, hclock, hresult⟩

theorem solve_iterative (selector : Selector) : Machine.solve selector links =
    .ok (links.outcome ((m.remainder covered).solve selector)) := by
  obtain ⟨states, final, hpasses, hstopped, hclock, -, hresult⟩ := h.machine_passes selector
  have hrun := hpasses.run_eq hstopped (Nat.le_trans hclock (Nat.le_add_left _ _))
  rw [Machine.solve, hrun.1, ok_bind]
  exact hresult

theorem solve_eq (driver : Driver) (selector : Selector) : links.solve driver selector =
    .ok (links.outcome ((m.remainder covered).solve selector)) := by
  cases driver with
  | recursive => exact h.solve_recursive selector
  | iterative => exact h.solve_iterative selector

end Covered

end Links

end ExactCover
