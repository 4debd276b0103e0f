import ExactCover.Proofs.Search.Plain
/-!
The plain search enters at most as many partial solutions as there are sets of rows, and takes each
of them back at most once. A level that tries several rows leaves all of them out of every level
below, and that is what keeps the sum small.
-/

namespace ExactCover

/-- Partial solutions entered and rows taken back. -/
def Stats.effort (stats : Stats) : Nat := stats.nodes + stats.backtracks

namespace Stats

variable (stats : Stats) (n : Nat)

@[simp] theorem effort_enter : (stats.enter n).effort = stats.effort + 1 :=
  Nat.add_right_comm _ _ _

@[simp] theorem effort_deadEnd : stats.deadEnd.effort = stats.effort := rfl

@[simp] theorem effort_update : (stats.update n).effort = stats.effort := rfl

@[simp] theorem effort_tryRow : (stats.tryRow n).effort = stats.effort := rfl

@[simp] theorem effort_backtrack : stats.backtrack.effort = stats.effort + 1 := rfl

end Stats

namespace Remainder

variable {p : Remainder} {column bound : Nat} {stats : Stats}

/-- How many of the live rows set a column at all. -/
def weight (p : Remainder) : Nat := (p.rows.filter fun live => live.ones ≠ []).length

theorem weight_strike (p : Remainder) (column : Nat) :
    p.weight = (p.candidates column).length + (p.strike column).weight := by
  rw [weight, List.length_eq_length_filter_add fun live => live.ones.contains column]
  congr 2
  · rw [List.filter_filter, candidates]
    refine List.filter_congr fun live _ => ?_
    by_cases hones : live.ones = [] <;> simp [hones]
  · rw [strike, List.filter_filter, List.filter_filter]
    refine List.filter_congr fun live _ => ?_
    rw [Bool.and_comm]

theorem weight_select_le (p : Remainder) {live : LiveRow} (hones : column ∈ live.ones) :
    (p.select live).weight ≤ (p.strike column).weight := by
  refine List.Sublist.length_le (List.Sublist.filter _ ?_)
  refine List.monotone_filter_right p.rows fun other hother => ?_
  have hdisjoint : ∀ c ∈ live.ones, c ∉ other.ones := by simpa using hother
  simpa using hdisjoint column hones

theorem weight_select_lt {live : LiveRow} (hlive : live ∈ p.candidates column) :
    (p.select live).weight < p.weight := by
  have hle := p.weight_select_le (mem_candidates.1 hlive).2
  have hpos : 0 < (p.candidates column).length := List.length_pos_of_mem hlive
  rw [p.weight_strike column]
  omega

theorem effort_tryRows {descend : LiveRow → Stats → Stats × Option (List Nat)} {lives : List LiveRow}
    (hdescend : ∀ live ∈ lives, ∀ stats, (descend live stats).1.effort + 1 ≤ stats.effort + bound) :
    (tryRows descend lives stats).1.effort ≤ stats.effort + lives.length * bound := by
  induction lives generalizing stats with
  | nil => exact Nat.le_add_right _ _
  | cons live lives ih =>
    have hfirst := hdescend live List.mem_cons_self stats
    rw [List.length_cons, Nat.succ_mul, tryRows]
    generalize descend live stats = result at hfirst
    obtain ⟨after, found⟩ := result
    cases found with
    | some rows =>
      dsimp only at hfirst ⊢
      omega
    | none =>
      have hrest := @ih after.backtrack fun l hl => hdescend l (List.mem_cons_of_mem live hl)
      rw [Stats.effort_backtrack] at hrest
      dsimp only at hfirst ⊢
      omega

/-- Trying `count` rows, each with a search over the `weight` rows that none of them blocks. -/
theorem mul_two_pow_add_two_le (count weight : Nat) :
    count * 2 ^ (weight + 1) + 2 ≤ 2 ^ (count + weight + 1) := by
  have hcount : count + 1 ≤ 2 ^ count := Nat.lt_two_pow_self
  have hweight : 2 ≤ 2 ^ (weight + 1) := by
    have := Nat.one_le_two_pow (n := weight)
    omega
  calc count * 2 ^ (weight + 1) + 2
      ≤ count * 2 ^ (weight + 1) + 2 ^ (weight + 1) := Nat.add_le_add_left hweight _
    _ = (count + 1) * 2 ^ (weight + 1) := (Nat.succ_mul _ _).symm
    _ ≤ 2 ^ count * 2 ^ (weight + 1) := Nat.mul_le_mul_right _ hcount
    _ = 2 ^ (count + weight + 1) := by rw [← Nat.pow_add, Nat.add_assoc]

/-- The search stays below one entry and one return for each set of rows. -/
theorem effort_search (selector : Selector) {levels : Nat} (hlevels : p.columns.length < levels)
    (depth : Nat) (stats : Stats) :
    (search selector levels depth p stats).1.effort + 1 ≤ stats.effort + 2 ^ (p.weight + 1) := by
  have htwo : ∀ p : Remainder, 2 ≤ 2 ^ (p.weight + 1) := by
    intro p
    simpa using mul_two_pow_add_two_le 0 p.weight
  refine search_induction (motive := fun p _ stats result =>
    result.1.effort + 1 ≤ stats.effort + 2 ^ (p.weight + 1)) ?solved ?deadEnd ?branch hlevels
  case solved =>
    intro p depth stats _
    have := htwo p
    rw [Stats.effort_enter]
    omega
  case deadEnd =>
    intro p depth _ stats _ _
    have := htwo p
    rw [Stats.effort_deadEnd, Stats.effort_enter]
    omega
  case branch =>
    intro p depth column stats descend _ _ hdescend
    -- No candidate lives on below another one, so each searches among the rows of the strike.
    have hbelow : ∀ live ∈ p.candidates column, ∀ stats,
        (descend live stats).1.effort + 1 ≤ stats.effort + 2 ^ ((p.strike column).weight + 1) := by
      intro live hlive stats
      obtain ⟨updates, heffort⟩ := hdescend live hlive stats
      rw [Stats.effort_tryRow] at heffort
      have hle := p.weight_select_le (mem_candidates.1 hlive).2
      refine Nat.le_trans heffort (Nat.add_le_add_left ?_ _)
      exact Nat.pow_le_pow_right (by decide) (Nat.succ_le_succ hle)
    have hrows := @effort_tryRows _ ((stats.enter depth).update (p.cost column)) _ _ hbelow
    have hsum := mul_two_pow_add_two_le (p.candidates column).length (p.strike column).weight
    rw [← p.weight_strike column] at hsum
    rw [Stats.effort_update, Stats.effort_enter] at hrows
    omega

end Remainder

theorem length_filter_ne_nil_le (rows : List (List Nat)) :
    (rows.filter (· ≠ [])).length ≤ rows.flatten.length := by
  induction rows with
  | nil => exact Nat.le_refl _
  | cons ones rows ih =>
    rw [List.flatten_cons, List.length_append]
    by_cases hones : ones = []
    · rw [List.filter_cons_of_neg (by simp [hones])]
      omega
    · have hpos : 0 < ones.length := List.length_pos_iff.2 hones
      rw [List.filter_cons_of_pos (by simp [hones]), List.length_cons]
      omega

/-- Only rows of the matrix with a set column are left. -/
theorem Matrix.weight_remainder_le_nonEmpty (m : Matrix) (struck : List Nat) :
    (m.remainder struck).weight ≤ (m.rows.filter (· ≠ [])).length := by
  have hsub : (m.remainder struck).weight ≤
      ((liveRows m.rows).filter fun live => live.ones ≠ []).length :=
    (List.filter_sublist.filter _).length_le
  have hrows : ((liveRows m.rows).map LiveRow.ones).filter (· ≠ []) = m.rows.filter (· ≠ []) := by
    rw [map_ones_liveRows]
  rw [List.filter_map] at hrows
  have hlength := congrArg List.length hrows
  rw [List.length_map] at hlength
  exact Nat.le_trans hsub (Nat.le_of_eq hlength)

theorem Matrix.weight_remainder_le (m : Matrix) (struck : List Nat) :
    (m.remainder struck).weight ≤ m.rows.flatten.length :=
  Nat.le_trans (m.weight_remainder_le_nonEmpty struck) (length_filter_ne_nil_le m.rows)

end ExactCover
