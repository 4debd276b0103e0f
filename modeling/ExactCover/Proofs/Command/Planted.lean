import ExactCover.Proofs.Command.Report
/-!
Random matrices as they are drawn and solved: whatever is drawn, the planted rows are an exact cover,
and no search misses one.
-/

namespace ExactCover.Planted

def wide : Planted := { columns := 1152921504606846976, extraRows := 0, maxGroup := 1 }

theorem generate_of_columnLimit_lt {p : Planted} (h : columnLimit < p.columns) (g : Generator) :
    p.generate g = .error (.tooLarge (.columns p.columns)) := by
  have hne : p.columns ≠ 0 := Nat.ne_of_gt (Nat.zero_lt_of_lt h)
  rw [generate, if_neg hne, if_pos h]

variable {g : Generator} {p : Planted} {planted : PlantedMatrix}

theorem isExactCover_of_generate (hg : g.Lawful) (h : p.generate g = .ok planted) :
    planted.matrix.IsExactCover planted.cover := by
  obtain ⟨hcolumns, hwidth, hrows, hmarked⟩ := of_generate hg h
  exact hmarked ▸ (divided_drawAll hg hcolumns).isExactCover hwidth hrows

/-- A search for the planted cover does not come back without one, however large the matrix is. -/
theorem failure_ne_noPlantedCover (hg : g.Lawful) (p : Planted) (options : Options) :
    ((Task.random p).run options g).failure ≠ some .noPlantedCover := by
  rw [Task.run, Task.load]
  cases hgenerate : p.generate g with
  | error failure => cases failure <;> exact fun h => (nomatch h)
  | ok planted =>
    have hcover := isExactCover_of_generate hg hgenerate
    rcases Problem.report_cases (.planted ⟨_, hcover⟩) options with ⟨-, _, _, hcut, -⟩ | hright
    · simp only [hcut]
      exact fun h => (nomatch h)
    · simp only [hright.failure_eq]
      exact fun h => (nomatch h)

/-- Where lists can hold it, a matrix with a planted cover is drawn; they can if columns and extra
rows together are no more than the rows in a list, and they cannot if the extra rows alone are as
many or the columns are too many. It has that width and the extra rows besides those of the cover,
which are listed in order, divide the columns and set no more of them than a group may have. No row
is empty. Every search on its links, if there are not too many nodes, finds a cover, and no run
fails for want of one. All this needs of the draws is that they keep to their bounds and that a
shuffle loses nothing. -/
theorem generate_plants_cover (g : Generator) (hg : g.Lawful) (p : Planted)
    (hcolumns : 1 ≤ p.columns) :
    (p.columns + p.extraRows ≤ rowLimit → ∃ planted, p.generate g = .ok planted) ∧
    (rowLimit ≤ p.extraRows ∨ columnLimit < p.columns →
      ∃ cause, p.generate g = .error (.tooLarge cause)) ∧
    (∀ failure, p.generate g = .error failure → ∃ cause, failure = .tooLarge cause) ∧
    (∀ planted, p.generate g = .ok planted →
      planted.matrix.numColumns = p.columns ∧
      planted.matrix.numRows = planted.cover.length + p.extraRows ∧
      planted.matrix.numOnes ≤ p.columns + p.extraRows * p.columns ∧
      planted.cover.Pairwise (· < ·) ∧
      planted.matrix.IsExactCover planted.cover ∧
      (Solution.mk planted.cover).verify planted.matrix = true ∧
      (∀ row ∈ planted.cover, ∃ ones, planted.matrix.ones? row = some ones ∧
        1 ≤ ones.length ∧ ones.length ≤ max 1 (min p.maxGroup p.columns)) ∧
      (∀ row < planted.matrix.numRows, ∃ ones, planted.matrix.ones? row = some ones ∧ ones ≠ []) ∧
      (1 + p.columns + planted.matrix.numOnes ≤ nodeLimit → ∃ links,
        Links.build planted.matrix = .ok links ∧ ∀ (driver : Driver) (selector : Selector),
          ∃ outcome, links.solve driver selector = .ok outcome ∧
            outcome.solution.isSome = true)) ∧
    ∀ options, ((Task.random p).run options g).failure ≠ some .noPlantedCover := by
  refine ⟨fun hfits => ?_, fun hlarge => ?_, fun failure hfailure => ?_, fun planted hplanted => ?_,
    failure_ne_noPlantedCover hg p⟩
  · rcases generate_cases hg hcolumns with ⟨hlarge, -⟩ | ⟨planted, hplanted, -⟩
    · exact absurd hfits (Nat.not_le.2 hlarge)
    · exact ⟨planted, hplanted⟩
  · rcases hlarge with hextra | hwide
    · exact generate_of_rowLimit_le hg hcolumns hextra
    · exact ⟨_, generate_of_columnLimit_lt hwide g⟩
  · rcases generate_cases hg hcolumns with ⟨-, cause, hcause⟩ | ⟨planted, hplanted, -⟩
    · exact ⟨cause, Except.error.inj (hfailure.symm.trans hcause)⟩
    · rw [hplanted] at hfailure
      cases hfailure
  · obtain ⟨-, hwidth, hrows, hmarked⟩ := of_generate hg hplanted
    have h := divided_drawAll hg hcolumns
    have hcover := isExactCover_of_generate hg hplanted
    refine ⟨hwidth, ?_, h.numOnes_le hrows, hmarked ▸ pairwise_marked _, hcover,
      Solution.verify_iff.2 hcover, fun row hrow => h.length_ones hrows (hmarked ▸ hrow),
      fun row hrow => h.ones_ne_nil hrows hrow, fun hnodes => ?_⟩
    · rw [Matrix.numRows, hrows, List.length_map, hmarked, length_marked, h.length_eq]
    · refine ⟨_, Links.build_eq_ok (hwidth ▸ hnodes), fun driver selector => ?_⟩
      obtain ⟨o, ho, hanswered⟩ := Problem.exists_answered planted.matrix driver selector
      exact ⟨o, ho, hanswered.isSome_iff.2 ⟨_, hcover⟩⟩

theorem generate_plants_cover_default : Random.generator.Lawful ∧
    1 ≤ ({ seed := 7 } : Planted).columns ∧
    ∃ planted, ({ seed := 7 } : Planted).generate Random.generator = .ok planted ∧
      planted.matrix.numColumns = 32 ∧ planted.matrix.numRows = planted.cover.length + 64 ∧
      planted.cover.Pairwise (· < ·) ∧ planted.matrix.IsExactCover planted.cover ∧
      (Solution.mk planted.cover).verify planted.matrix = true ∧
      (∀ row ∈ planted.cover, ∃ ones, planted.matrix.ones? row = some ones ∧
        1 ≤ ones.length ∧ ones.length ≤ 4) ∧
      (∀ row < planted.matrix.numRows, ∃ ones, planted.matrix.ones? row = some ones ∧ ones ≠ []) ∧
      ∃ links, Links.build planted.matrix = .ok links ∧
        ∀ (driver : Driver) (selector : Selector), ∃ outcome,
          links.solve driver selector = .ok outcome ∧ outcome.solution.isSome = true := by
  obtain ⟨hok, -, -, hfacts, -⟩ := generate_plants_cover Random.generator Random.generator_lawful
    { seed := 7 } (by decide)
  obtain ⟨planted, hplanted⟩ := hok (by decide +kernel)
  obtain ⟨hwidth, hlength, hones, hascending, hcover, hverify, hgroups, hrows, hlinks⟩ :=
    hfacts planted hplanted
  have hlimit : 1 + 32 + (32 + 64 * 32) ≤ nodeLimit := by decide +kernel
  exact ⟨Random.generator_lawful, by decide, planted, hplanted, hwidth, hlength, hascending, hcover,
    hverify, hgroups, hrows, hlinks ((Nat.add_le_add_left hones (1 + 32)).trans hlimit)⟩

/-- Beyond what a list of columns holds there is nothing to draw from, though there are columns. -/
theorem generate_wide_fails :
    1 ≤ wide.columns ∧ ¬ ∃ planted, wide.generate Random.generator = .ok planted := by
  refine ⟨by decide, fun ⟨planted, hplanted⟩ => ?_⟩
  rw [generate_of_columnLimit_lt (show columnLimit < wide.columns by decide +kernel)] at hplanted
  cases hplanted

end ExactCover.Planted
