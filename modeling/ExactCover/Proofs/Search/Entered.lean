import ExactCover.Matrix.Packing
import ExactCover.Proofs.Search.Correct
/-!
No partial solution is entered twice. All that are entered below a row have that row in them, and
those below the other rows of its column do not, because they share the column. So there are no more
of them than there are sets of rows that may stand together.
-/

namespace ExactCover

namespace Remainder

/-- Rows that are selected one after the other, each among the candidates that the earlier ones
leave. -/
inductive Selects : Remainder → List Selection → Prop
  | nil (p : Remainder) : Selects p []
  | cons {p : Remainder} {column : Nat} {live : LiveRow} {picks : List Selection}
      (hlive : live ∈ p.candidates column) (h : Selects (p.select live) picks) :
      Selects p ({ column, live } :: picks)

/-- The row numbers of a partial solution, first selected first. -/
def selectedRows (picks : List Selection) : List Nat := picks.map fun pick => pick.live.row

variable {p : Remainder} {column levels depth : Nat} {live other : LiveRow}
  {pick : Selection} {picks others : List Selection} {stats : Stats}

namespace Selects

theorem mem_rows (h : p.Selects picks) (hpick : pick ∈ picks) :
    pick.live ∈ p.rows ∧ pick.column ∈ pick.live.ones := by
  induction h with
  | nil => cases hpick
  | cons hlive _ ih =>
    rcases List.mem_cons.1 hpick with rfl | hpick
    · exact mem_candidates.1 hlive
    · obtain ⟨hrow, hset⟩ := ih hpick
      exact ⟨(mem_rows_select.1 hrow).1, hset⟩

theorem not_mem_ones (h : (p.select live).Selects picks) (hpick : pick ∈ picks)
    (hcolumn : column ∈ live.ones) : column ∉ pick.live.ones :=
  (mem_rows_select.1 (h.mem_rows hpick).1).2 column hcolumn

theorem eq_of_mem_ones (h : p.Selects picks) {pick' : Selection} (hpick : pick ∈ picks)
    (hpick' : pick' ∈ picks) (hcolumn : column ∈ pick.live.ones)
    (hcolumn' : column ∈ pick'.live.ones) : pick = pick' := by
  induction h with
  | nil => cases hpick
  | cons _ h ih =>
    rcases List.mem_cons.1 hpick with rfl | hpick
    · rcases List.mem_cons.1 hpick' with rfl | hpick'
      · rfl
      · exact absurd hcolumn' (h.not_mem_ones hpick' hcolumn)
    · rcases List.mem_cons.1 hpick' with rfl | hpick'
      · exact absurd hcolumn (h.not_mem_ones hpick hcolumn')
      · exact ih hpick hpick'

theorem nodup (h : p.Selects picks) : picks.Nodup := by
  induction h with
  | nil => exact List.nodup_nil
  | cons hlive h ih =>
    have hset := (mem_candidates.1 hlive).2
    exact List.nodup_cons.2 ⟨fun hmem => h.not_mem_ones hmem hset hset, ih⟩

end Selects

section Distinct

variable (hrows : (p.rows.map LiveRow.row).Nodup)
include hrows

theorem row_not_mem_selectedRows (hlive : live ∈ p.candidates column)
    (hother : other ∈ p.candidates column) (h : (p.select other).Selects picks) :
    live.row ∉ selectedRows picks := by
  intro hmem
  obtain ⟨pick, hpick, hrow⟩ := List.mem_map.1 hmem
  obtain ⟨hlive, hset⟩ := mem_candidates.1 hlive
  have hpicked := (mem_rows_select.1 (h.mem_rows hpick).1).1
  have hsame : pick.live = live := List.inj_on_of_nodup_map hrows hpicked hlive hrow
  exact h.not_mem_ones hpick (mem_candidates.1 hother).2 (hsame ▸ hset)

theorem selectedRows_ne_of_ne (hlive : live ∈ p.candidates column)
    (hother : other ∈ p.candidates column) (hne : live ≠ other)
    (h : (p.select other).Selects others) :
    (selectedRows ({ column, live } :: picks)).toFinset ≠
      (selectedRows ({ column, live := other } :: others)).toFinset := by
  intro heq
  have hmem : live.row ∈ selectedRows ({ column, live := other } :: others) := by
    rw [← List.mem_toFinset, ← heq, List.mem_toFinset]
    exact List.mem_cons_self
  rcases List.mem_cons.1 hmem with hrow | hmem
  · exact hne (List.inj_on_of_nodup_map hrows (mem_candidates.1 hlive).1
      (mem_candidates.1 hother).1 hrow)
  · exact row_not_mem_selectedRows hrows hlive hother h hmem

theorem selectedRows_cons_ne (hlive : live ∈ p.candidates column)
    (hpicks : (p.select live).Selects picks) (hothers : (p.select live).Selects others)
    (hne : (selectedRows picks).toFinset ≠ (selectedRows others).toFinset) :
    (selectedRows ({ column, live } :: picks)).toFinset ≠
      (selectedRows ({ column, live } :: others)).toFinset := by
  intro heq
  have herase : ∀ {below}, (p.select live).Selects below →
      (selectedRows ({ column, live } :: below)).toFinset.erase live.row =
        (selectedRows below).toFinset := by
    intro below h
    have hnew := row_not_mem_selectedRows hrows hlive hlive h
    rw [selectedRows, List.map_cons, List.toFinset_cons]
    exact Finset.erase_insert fun hmem => hnew (List.mem_toFinset.1 hmem)
  rw [← herase hpicks, ← herase hothers, heq] at hne
  exact hne rfl

end Distinct

/-- What a part of the search enters: partial solutions that can be selected, no two of them with the
same rows. Each of them is counted once, and the last one is what is found. -/
structure Explores (p : Remainder) (before : Stats) (tour : Tour) : Prop where
  selects : ∀ picks ∈ tour.entered, p.Selects picks
  distinct : tour.entered.Pairwise fun picks others =>
    (selectedRows picks).toFinset ≠ (selectedRows others).toFinset
  nodes : tour.result.1.nodes = before.nodes + tour.entered.length
  last : ∀ rows, tour.result.2 = some rows →
    (tour.entered.map selectedRows).getLast? = some rows

namespace Explores

variable {tour further : Tour} {before after : Stats} {updates : Nat}

theorem nothing : Explores p before { result := (before, none), entered := [] } where
  selects := List.forall_mem_nil _
  distinct := .nil
  nodes := rfl
  last := fun rows hrows => absurd hrows.symm (Option.some_ne_none rows)

theorem single (hnodes : after.nodes = before.nodes + 1) {found : Option (List Nat)}
    (hfound : found = none ∨ found = some []) :
    Explores p before { result := (after, found), entered := [[]] } where
  selects := List.forall_mem_singleton.2 (.nil p)
  distinct := List.pairwise_singleton _ _
  nodes := hnodes
  last := by
    rintro rows rfl
    rcases hfound with hnone | hnil
    · cases hnone
    · exact hnil.symm

theorem cons (h : Explores (p.select live) before tour) (hlive : live ∈ p.candidates column)
    (hrows : (p.rows.map LiveRow.row).Nodup) :
    Explores p before { result := (tour.result.1, tour.result.2.map (live.row :: ·)),
                        entered := tour.entered.map ({ column, live } :: ·) } where
  selects := by
    intro picks hpicks
    obtain ⟨below, hbelow, rfl⟩ := List.mem_map.1 hpicks
    exact .cons hlive (h.selects below hbelow)
  distinct := by
    refine List.pairwise_map.2 (h.distinct.imp_of_mem fun hpicks hothers hne => ?_)
    exact selectedRows_cons_ne hrows hlive (h.selects _ hpicks) (h.selects _ hothers) hne
  nodes := by
    rw [List.length_map]
    exact h.nodes
  last := by
    intro rows hrows
    obtain ⟨rest, hrest, rfl⟩ := Option.map_eq_some_iff.1 hrows
    have hcons : (tour.entered.map ({ column, live } :: ·)).map selectedRows =
        (tour.entered.map selectedRows).map (live.row :: ·) := by
      rw [List.map_map, List.map_map]
      rfl
    rw [hcons, List.getLast?_map, h.last rest hrest]
    rfl

theorem append (h : Explores p before tour)
    (hfurther : Explores p tour.result.1.backtrack further)
    (hne : ∀ picks ∈ tour.entered, ∀ others ∈ further.entered,
      (selectedRows picks).toFinset ≠ (selectedRows others).toFinset) :
    Explores p before { result := further.result, entered := tour.entered ++ further.entered } where
  selects := List.forall_mem_append.2 ⟨h.selects, hfurther.selects⟩
  distinct := List.pairwise_append.2 ⟨h.distinct, hfurther.distinct, hne⟩
  nodes := by
    rw [hfurther.nodes, Stats.backtrack, h.nodes, List.length_append, Nat.add_assoc]
  last := by
    intro rows hrows
    rw [List.map_append, List.getLast?_append, hfurther.last rows hrows]
    rfl

theorem enter (h : Explores p ((before.enter depth).update updates) tour)
    (hne : ∀ picks ∈ tour.entered, picks ≠ []) :
    Explores p before { result := tour.result, entered := [] :: tour.entered } where
  selects := List.forall_mem_cons.2 ⟨.nil p, h.selects⟩
  distinct := by
    refine List.pairwise_cons.2 ⟨fun picks hpicks => ?_, h.distinct⟩
    obtain ⟨pick, rest, rfl⟩ := List.exists_cons_of_ne_nil (hne picks hpicks)
    rw [selectedRows, selectedRows, List.map_cons, List.toFinset_cons]
    exact (Finset.insert_ne_empty _ _).symm
  nodes := by
    have hbefore : ((before.enter depth).update updates).nodes = before.nodes + 1 := rfl
    rw [h.nodes, hbefore, List.length_cons]
    omega
  last := by
    intro rows hrows
    rw [List.map_cons, List.getLast?_cons, h.last rows hrows]
    rfl

end Explores

theorem exists_of_mem_tourRows {descend : LiveRow → Stats → Tour} {lives : List LiveRow}
    (h : picks ∈ (tourRows descend column lives stats).entered) :
    ∃ live ∈ lives, ∃ stats, ∃ below ∈ (descend live stats).entered,
      picks = { column, live } :: below := by
  induction lives generalizing stats with
  | nil => cases h
  | cons live lives ih =>
    have hhere : picks ∈ (descend live stats).entered.map ({ column, live } :: ·) →
        ∃ l ∈ live :: lives, ∃ stats, ∃ below ∈ (descend l stats).entered,
          picks = { column, live := l } :: below := by
      intro hmem
      obtain ⟨below, hbelow, rfl⟩ := List.mem_map.1 hmem
      exact ⟨live, List.mem_cons_self, stats, below, hbelow, rfl⟩
    rw [tourRows] at h
    split at h
    · exact hhere h
    · rcases List.mem_append.1 h with h | h
      · exact hhere h
      · obtain ⟨l, hl, hrest⟩ := ih h
        exact ⟨l, List.mem_cons_of_mem live hl, hrest⟩

theorem tourRows_explores (hrows : (p.rows.map LiveRow.row).Nodup)
    {descend : LiveRow → Stats → Tour} {lives : List LiveRow}
    (hlives : ∀ live ∈ lives, live ∈ p.candidates column) (hnodup : lives.Nodup)
    (hdescend : ∀ live ∈ lives, ∀ stats : Stats, Explores (p.select live) stats (descend live stats)) :
    Explores p stats (tourRows descend column lives stats) := by
  induction lives generalizing stats with
  | nil => exact .nothing
  | cons live lives ih =>
    obtain ⟨hfresh, hnodup⟩ := List.nodup_cons.1 hnodup
    obtain ⟨hlive, hlives⟩ := List.forall_mem_cons.1 hlives
    obtain ⟨hfirst, hdescend⟩ := List.forall_mem_cons.1 hdescend
    have hhere := (hfirst stats).cons hlive hrows
    rw [tourRows]
    generalize descend live stats = tour at hhere
    obtain ⟨⟨after, found⟩, entered⟩ := tour
    cases found with
    | some rows => exact hhere
    | none =>
      refine hhere.append (ih hlives hnodup hdescend) fun picks hpicks others hothers => ?_
      obtain ⟨below, -, rfl⟩ := List.mem_map.1 hpicks
      obtain ⟨other, hother, stats, below', hbelow', rfl⟩ := exists_of_mem_tourRows hothers
      have hne : live ≠ other := fun heq => hfresh (heq ▸ hother)
      exact selectedRows_ne_of_ne hrows hlive (hlives other hother) hne
        ((hdescend other hother stats).selects below' hbelow')

/-- The plain search explores what is left of a matrix. -/
theorem tour_explores (selector : Selector) (hrows : (p.rows.map LiveRow.row).Nodup) :
    Explores p stats (tour selector levels depth p stats) := by
  induction levels generalizing p depth stats with
  | zero => exact .nothing
  | succ levels ih =>
    cases hpick : p.pick selector with
    | none =>
      rw [tour_solved hpick]
      exact .single rfl (.inr rfl)
    | some column =>
      by_cases hnone : p.candidates column = []
      · rw [tour_deadEnd hpick hnone]
        exact .single rfl (.inl rfl)
      · have hdescend : ∀ live ∈ p.candidates column, ∀ stats : Stats, Explores (p.select live) stats
            (p.tourBelow selector levels depth column live stats) := by
          intro live _ stats
          have hselect : ((p.select live).rows.map LiveRow.row).Nodup :=
            hrows.sublist (List.filter_sublist.map _)
          obtain ⟨hselects, hdistinct, hnodes, hlast⟩ := ih hselect
          exact ⟨hselects, hdistinct, hnodes, hlast⟩
        have hcandidates : (p.candidates column).Nodup := (hrows.of_map _).filter _
        rw [tour_branch hpick hnone]
        refine (tourRows_explores hrows (fun _ hlive => hlive) hcandidates hdescend).enter ?_
        intro picks hpicks
        obtain ⟨live, -, -, below, -, rfl⟩ := exists_of_mem_tourRows hpicks
        exact List.cons_ne_nil _ _

end Remainder

namespace Matrix

open Remainder

variable {m : Matrix} {rows : Finset Nat} {picks : List Selection}

theorem solveTour_explores (m : Matrix) (struck : List Nat) (selector : Selector) :
    Explores (m.remainder struck) {} ((m.remainder struck).solveTour selector) :=
  tour_explores selector ((nodup_map_row_liveRows m.rows).sublist (List.filter_sublist.map _))

theorem mem_liveRows_of_selects {struck : List Nat} (h : (m.remainder struck).Selects picks) :
    ∀ pick ∈ picks, pick.live ∈ liveRows m.rows ∧ pick.column ∈ pick.live.ones := by
  intro pick hpick
  obtain ⟨hrow, hset⟩ := h.mem_rows hpick
  exact ⟨(mem_rows_remainder.1 hrow).1, hset⟩

theorem mem_packings : rows ∈ m.packings ↔ m.IsPacking rows := by
  rw [packings, Finset.mem_filter, Finset.mem_powerset]
  refine ⟨And.right, fun h => ⟨fun row hrow => ?_, h⟩⟩
  obtain ⟨column, -, hset⟩ := h.1 row hrow
  exact Finset.mem_range.2 (lt_of_isSet hset).1

theorem length_le_card_packings {listed : List (List Nat)}
    (hpairwise : listed.Pairwise fun rows others => rows.toFinset ≠ others.toFinset)
    (hpacking : ∀ rows ∈ listed, m.IsPacking rows.toFinset) : listed.length ≤ m.packings.card := by
  have hnodup : (listed.map List.toFinset).Nodup := List.pairwise_map.2 hpairwise
  have hsubset : (listed.map List.toFinset).toFinset ⊆ m.packings := by
    intro set hset
    obtain ⟨rows, hrows, rfl⟩ := List.mem_map.1 (List.mem_toFinset.1 hset)
    exact mem_packings.2 (hpacking rows hrows)
  calc listed.length
      = (listed.map List.toFinset).toFinset.card := by
        rw [List.toFinset_card_of_nodup hnodup, List.length_map]
    _ ≤ m.packings.card := Finset.card_le_card hsubset

/-- What can be selected in a matrix are distinct rows that may stand together. -/
theorem isPacking_of_selects (h : (m.remainder []).Selects picks) :
    (selectedRows picks).Nodup ∧ m.IsPacking (selectedRows picks).toFinset := by
  have hmem := mem_liveRows_of_selects h
  refine ⟨h.nodup.map_on fun pick hpick pick' hpick' hrow => ?_, fun row hrow => ?_, ?_⟩
  · have hsame := eq_of_row_eq (hmem pick hpick).1 (hmem pick' hpick').1 hrow
    have hset := (hmem pick hpick).2
    exact h.eq_of_mem_ones hpick hpick' hset (hsame ▸ hset)
  · obtain ⟨pick, hpick, rfl⟩ := List.mem_map.1 (List.mem_toFinset.1 hrow)
    obtain ⟨hlive, hset⟩ := hmem pick hpick
    exact ⟨pick.column, bounded_of_mem hlive hset, (isSet_row hlive).2 hset⟩
  · intro row hrow other hother column _ hset hset'
    obtain ⟨pick, hpick, rfl⟩ := List.mem_map.1 (List.mem_toFinset.1 hrow)
    obtain ⟨pick', hpick', rfl⟩ := List.mem_map.1 (List.mem_toFinset.1 hother)
    rw [h.eq_of_mem_ones hpick hpick' ((isSet_row (hmem pick hpick).1).1 hset)
      ((isSet_row (hmem pick' hpick').1).1 hset')]

end Matrix

namespace Links

variable {m : Matrix} {links : Links} {covered : List Nat} {picks : List Selection}

theorem Laid.selectedRows_eq (h : Laid m links)
    (hpicks : ∀ pick ∈ picks, pick.live ∈ liveRows m.rows ∧ pick.column ∈ pick.live.ones) :
    links.selectedRows (picks.map m.cellOf) = .ok ⟨Remainder.selectedRows picks⟩ := by
  induction picks with
  | nil => rfl
  | cons pick picks ih =>
    obtain ⟨⟨hlive, hset⟩, hpicks⟩ := List.forall_mem_cons.1 hpicks
    exact h.selectedRows_cons hlive hset (ih hpicks)

/-- Both drivers enter the partial solutions of the plain search, in the same order. -/
theorem Covered.enteredCells_eq (h : Covered m covered links) (driver : Driver)
    (selector : Selector) : links.enteredCells driver selector =
      .ok (((m.remainder covered).solveTour selector).entered.map (·.map m.cellOf)) := by
  cases driver with
  | recursive =>
    obtain ⟨tour, htour, hentered⟩ := h.tour_recursive selector
    rw [enteredCells, htour, ok_bind, hentered]
    rfl
  | iterative =>
    obtain ⟨states, final, hpasses, hstopped, hclock, hdescents, -⟩ := h.machine_passes selector
    have hrun := hpasses.run_eq hstopped (Nat.le_trans hclock (Nat.le_add_left _ _))
    have hcells : ∀ picks : List Selection,
        (Machine.pushAll m [] picks).reverse.map Choice.cell = picks.map m.cellOf := by
      intro picks
      simp [Machine.pushAll, Machine.choiceOf]
    rw [enteredCells, hrun.2, ok_bind, hdescents, List.map_map]
    exact congrArg Except.ok (List.map_congr_left fun picks _ => hcells picks)

theorem Covered.entered_eq (h : Covered m covered links) (driver : Driver) (selector : Selector) :
    links.entered driver selector =
      .ok (((m.remainder covered).solveTour selector).entered.map Remainder.selectedRows) := by
  rw [entered, h.enteredCells_eq driver selector, ok_bind, List.mapM_map]
  refine mapM_eq_ok fun picks hpicks => ?_
  have hselects := (m.solveTour_explores covered selector).selects picks hpicks
  have hread : links.selectedRows (picks.map m.cellOf) = .ok ⟨Remainder.selectedRows picks⟩ :=
    h.toLaid.selectedRows_eq (Matrix.mem_liveRows_of_selects hselects)
  rw [Function.comp_apply, hread]
  rfl

/-- Whatever the driver and the selector, the partial solutions that a search enters have different
sets of rows, each of them a packing, and the last one is what is found. As many are entered as are
counted, and so no more than there are packings. -/
theorem enters_once (m : Matrix) (driver : Driver) (selector : Selector) :
    ∃ outcome entered, (ofMatrix m).solve driver selector = .ok outcome ∧
      (ofMatrix m).entered driver selector = .ok entered ∧
      entered.length = outcome.stats.nodes ∧
      (∀ solution, outcome.solution = some solution → entered.getLast? = some solution.rows) ∧
      entered.Pairwise (fun rows others => rows.toFinset ≠ others.toFinset) ∧
      (∀ rows ∈ entered, rows.Nodup ∧ m.IsPacking rows.toFinset) ∧
      outcome.stats.nodes ≤ m.packings.card := by
  have hcovered := covered_ofMatrix m
  have hentered := hcovered.entered_eq driver selector
  obtain ⟨hselects, hdistinct, hnodes, hlast⟩ := m.solveTour_explores [] selector
  rw [Remainder.result_solveTour] at hnodes hlast
  generalize ((m.remainder []).solveTour selector).entered = picked at *
  have hlength : (picked.map Remainder.selectedRows).length =
      ((m.remainder []).solve selector).1.nodes := by
    rw [hnodes, List.length_map, Nat.zero_add]
  have hfound : ∀ solution, ((m.remainder []).solve selector).2.map Solution.mk = some solution →
      (picked.map Remainder.selectedRows).getLast? = some solution.rows := by
    intro solution hsolution
    obtain ⟨rows, hrows, rfl⟩ := Option.map_eq_some_iff.1 hsolution
    exact hlast rows hrows
  have hpairwise : (picked.map Remainder.selectedRows).Pairwise
      fun rows others => rows.toFinset ≠ others.toFinset := List.pairwise_map.2 hdistinct
  have hpacking : ∀ rows ∈ picked.map Remainder.selectedRows,
      rows.Nodup ∧ m.IsPacking rows.toFinset := by
    intro rows hrows
    obtain ⟨picks, hpicks, rfl⟩ := List.mem_map.1 hrows
    exact Matrix.isPacking_of_selects (hselects picks hpicks)
  refine ⟨_, _, hcovered.solve_eq driver selector, hentered, hlength, hfound, hpairwise, hpacking, ?_⟩
  exact hlength.symm.trans_le
    (Matrix.length_le_card_packings hpairwise fun rows hrows => (hpacking rows hrows).2)

end Links

end ExactCover
