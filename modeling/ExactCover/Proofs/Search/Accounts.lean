import ExactCover.Proofs.Search.Correct
/-!
How the counts of a search hang together. Every partial solution but the first is entered by trying
a row, a row that has been tried is taken back or belongs to what is found, and only partial
solutions that have been entered are dead ends. None of them has more rows than the matrix has
columns, nor more than it has rows with a set column.
-/

namespace ExactCover

/-- What a part of the search does to the counts. It enters `entered` partial solutions besides those
that it gets to by trying a row, it meets at least `failures` dead ends if it fails, and it goes no
deeper than `bound`. -/
structure Accounts (entered failures depth bound : Nat) (before : Stats)
    (result : Stats × Option (List Nat)) : Prop where
  nodes : result.1.nodes + before.rowsTried = before.nodes + result.1.rowsTried + entered
  rowsTried : result.1.rowsTried + before.backtracks =
    before.rowsTried + result.1.backtracks + (result.2.getD []).length
  deadEnds_le : result.1.deadEnds + before.nodes ≤ before.deadEnds + result.1.nodes
  failed : result.2 = none → before.deadEnds + failures ≤ result.1.deadEnds
  found : ∀ rows, result.2 = some rows →
    result.1.deadEnds + before.nodes < before.deadEnds + result.1.nodes ∧
    depth + rows.length ≤ result.1.maxDepth
  maxDepth_le : result.1.maxDepth ≤ max before.maxDepth bound

namespace Accounts

variable {entered failures depth bound updates row : Nat} {before after : Stats} {rows : List Nat}
  {result : Stats × Option (List Nat)}

/-- A part of the search that found something has no failure to show. -/
theorem of_found (hnodes : after.nodes + before.rowsTried = before.nodes + after.rowsTried + entered)
    (hrows : after.rowsTried + before.backtracks =
      before.rowsTried + after.backtracks + rows.length)
    (hless : after.deadEnds + before.nodes < before.deadEnds + after.nodes)
    (hdepth : depth + rows.length ≤ after.maxDepth) (hmax : after.maxDepth ≤ max before.maxDepth bound) :
    Accounts entered failures depth bound before (after, some rows) where
  nodes := hnodes
  rowsTried := hrows
  deadEnds_le := Nat.le_of_lt hless
  failed := fun hnone => absurd hnone (Option.some_ne_none rows)
  found := by
    rintro _ ⟨⟩
    exact ⟨hless, hdepth⟩
  maxDepth_le := hmax

/-- A part of the search that failed has nothing to show for it. -/
theorem of_failed (hnodes : after.nodes + before.rowsTried = before.nodes + after.rowsTried + entered)
    (hrows : after.rowsTried + before.backtracks = before.rowsTried + after.backtracks)
    (hle : after.deadEnds + before.nodes ≤ before.deadEnds + after.nodes)
    (hfailed : before.deadEnds + failures ≤ after.deadEnds)
    (hmax : after.maxDepth ≤ max before.maxDepth bound) :
    Accounts entered failures depth bound before (after, none) where
  nodes := hnodes
  rowsTried := hrows
  deadEnds_le := hle
  failed := fun _ => hfailed
  found := fun rows hrows => absurd hrows.symm (Option.some_ne_none rows)
  maxDepth_le := hmax

theorem mono {failures' bound' : Nat} (h : Accounts entered failures depth bound before result)
    (hfailures : failures' ≤ failures) (hbound : bound ≤ bound') :
    Accounts entered failures' depth bound' before result where
  nodes := h.nodes
  rowsTried := h.rowsTried
  deadEnds_le := h.deadEnds_le
  failed := fun hnone => Nat.le_trans (Nat.add_le_add_left hfailures _) (h.failed hnone)
  found := h.found
  maxDepth_le := by
    have hmax := h.maxDepth_le
    omega

theorem keep (h : Accounts 1 1 (depth + 1) bound (before.tryRow updates) (after, some rows)) :
    Accounts 0 failures depth bound before (after, some (row :: rows)) := by
  obtain ⟨hnodes, hrows, -, -, hfound, hmax⟩ := h
  obtain ⟨hless, hdepth⟩ := hfound rows rfl
  simp only [Stats.tryRow, Option.getD_some] at hnodes hrows hless hdepth
  apply of_found
  · omega
  · rw [List.length_cons]
    omega
  · exact hless
  · rw [List.length_cons]
    omega
  · exact hmax

theorem retry (h : Accounts 1 1 (depth + 1) bound (before.tryRow updates) (after, none))
    (hrest : Accounts 0 failures depth bound after.backtrack result) :
    Accounts 0 (failures + 1) depth bound before result := by
  obtain ⟨hnodes, hrows, hle, hfailed, -, hmax⟩ := h
  obtain ⟨hnodes', hrows', hle', hfailed', hfound', hmax'⟩ := hrest
  have hfailed := hfailed rfl
  simp only [Stats.tryRow, Stats.backtrack, Option.getD_none, List.length_nil] at *
  obtain ⟨final, found⟩ := result
  cases found with
  | none =>
    have hfailed' := hfailed' rfl
    simp only [Option.getD_none, List.length_nil] at *
    apply of_failed
    all_goals omega
  | some rows =>
    obtain ⟨hless', hdepth'⟩ := hfound' rows rfl
    simp only [Option.getD_some] at *
    apply of_found
    all_goals omega

/-- What is done on entering a partial solution. -/
theorem enter (h : Accounts 0 failures depth bound ((before.enter depth).update updates) result)
    (hbound : depth ≤ bound) : Accounts 1 failures depth bound before result := by
  obtain ⟨final, found⟩ := result
  obtain ⟨hnodes, hrows, hle, hfailed, hfound, hmax⟩ := h
  simp only [Stats.enter, Stats.update] at *
  cases found with
  | none =>
    have hfailed := hfailed rfl
    simp only [Option.getD_none, List.length_nil] at *
    apply of_failed
    all_goals omega
  | some rows =>
    obtain ⟨hless, hdepth⟩ := hfound rows rfl
    simp only [Option.getD_some] at *
    apply of_found
    all_goals omega

end Accounts

namespace Remainder

variable {p : Remainder} {column levels depth bound : Nat} {stats : Stats}

theorem tryRows_accounts {descend : LiveRow → Stats → Stats × Option (List Nat)}
    {lives : List LiveRow}
    (hdescend : ∀ live ∈ lives, ∀ stats : Stats, ∃ updates,
      Accounts 1 1 (depth + 1) bound (stats.tryRow updates) (descend live stats)) :
    Accounts 0 lives.length depth bound stats (tryRows descend lives stats) := by
  induction lives generalizing stats with
  | nil =>
    rw [tryRows]
    apply Accounts.of_failed
    case hfailed => exact Nat.le_refl _
    all_goals omega
  | cons live lives ih =>
    obtain ⟨updates, hfirst⟩ := hdescend live List.mem_cons_self stats
    rw [tryRows]
    generalize descend live stats = result at hfirst
    obtain ⟨after, found⟩ := result
    cases found with
    | some rows => exact hfirst.keep
    | none => exact hfirst.retry (ih fun l hl => hdescend l (List.mem_cons_of_mem live hl))

theorem search_accounts (selector : Selector) (hlevels : p.columns.length < levels) :
    Accounts 1 1 depth (depth + min p.columns.length p.weight) stats
      (search selector levels depth p stats) := by
  refine search_induction (motive := fun p depth stats result =>
    Accounts 1 1 depth (depth + min p.columns.length p.weight) stats result)
    ?solved ?deadEnd ?branch hlevels
  case solved =>
    intro p depth stats _
    apply Accounts.of_found
    all_goals simp only [Stats.enter, List.length_nil]
    all_goals omega
  case deadEnd =>
    intro p depth _ stats _ _
    apply Accounts.of_failed
    all_goals simp only [Stats.enter, Stats.deadEnd]
    all_goals omega
  case branch =>
    intro p depth column stats descend hpick hsome hdescend
    have hbelow : ∀ live ∈ p.candidates column, ∀ stats : Stats, ∃ updates,
        Accounts 1 1 (depth + 1) (depth + min p.columns.length p.weight) (stats.tryRow updates)
          (descend live stats) := by
      intro live hlive stats
      obtain ⟨updates, haccounts⟩ := hdescend live hlive stats
      have hlt := length_columns_select (pick_mem hpick) (mem_candidates.1 hlive).2
      have hweight := weight_select_lt hlive
      exact ⟨updates, haccounts.mono (Nat.le_refl 1) (by omega)⟩
    exact ((tryRows_accounts hbelow).mono (List.length_pos_iff.2 hsome) (Nat.le_refl _)).enter
      (Nat.le_add_right _ _)

end Remainder

namespace Links

/-- Whatever the driver and the selector: how the counts at the end of a search relate to one
another, to the length of what is found, and to the matrix. -/
theorem solve_accounts (m : Matrix) (driver : Driver) (selector : Selector) :
    ∃ outcome, (ofMatrix m).solve driver selector = .ok outcome ∧
      outcome.stats.nodes = outcome.stats.rowsTried + 1 ∧
      (outcome.solution = none →
        outcome.stats.backtracks = outcome.stats.rowsTried ∧ 1 ≤ outcome.stats.deadEnds) ∧
      (∀ solution, outcome.solution = some solution →
        outcome.stats.rowsTried = outcome.stats.backtracks + solution.rows.length ∧
        outcome.stats.deadEnds + 1 ≤ outcome.stats.nodes ∧
        solution.rows.length ≤ outcome.stats.maxDepth) ∧
      outcome.stats.maxDepth ≤ m.numColumns ∧
      outcome.stats.maxDepth ≤ (m.rows.filter (· ≠ [])).length := by
  have haccounts : Accounts 1 1 0 _ {} ((m.remainder []).solve selector) :=
    Remainder.search_accounts selector (Nat.lt_succ_self (m.remainder []).columns.length)
  have hweight := m.weight_remainder_le_nonEmpty []
  have hlength : (m.remainder []).columns.length = m.numColumns := by
    rw [Matrix.remainder_nil]
    exact List.length_range
  refine ⟨_, (covered_ofMatrix m).solve_eq driver selector, ?_⟩
  rw [outcome]
  generalize (m.remainder []).solve selector = result at haccounts
  obtain ⟨stats, found⟩ := result
  obtain ⟨hnodes, hrows, -, hfailed, hfound, hmax⟩ := haccounts
  dsimp only at *
  refine ⟨by omega, ?_, ?_, by omega, by omega⟩
  · intro hnone
    rw [Option.map_eq_none_iff] at hnone
    have hfailed := hfailed hnone
    rw [hnone, Option.getD_none, List.length_nil] at hrows
    omega
  · intro solution hsolution
    obtain ⟨rows, hsome, rfl⟩ := Option.map_eq_some_iff.1 hsolution
    obtain ⟨hless, hdepth⟩ := hfound rows hsome
    rw [hsome, Option.getD_some] at hrows
    dsimp only
    omega

end Links

end ExactCover
