import ExactCover.Proofs.Search.Level
/-!
The recursive driver visits what the plain search visits. A level that fails gives the links back as
they were, and one that succeeds leaves a selection that can be taken back.
-/

namespace ExactCover

namespace Recursive

open Links

variable {m : Matrix} {links branched : Links} {covered : List Nat} {column : Nat}

inductive Agrees (m : Matrix) (links : Links) : Visit → Stats × Option (List Nat) → Prop
  | failed (stats : Stats) : Agrees m links { links, stats, found := none } (stats, none)
  | found {final : Links} {cells rows : List Nat} (stats : Stats)
      (h : Completes m links final cells rows) :
      Agrees m links { links := final, stats, found := some cells } (stats, some rows)

/-- The tour of the recursion beside that of the plain search: it ends alike, and it enters the same
partial solutions on top of the cells that are selected already. -/
structure Follows (m : Matrix) (links : Links) (cells : List Nat) (tour : Tour)
    (plain : Remainder.Tour) : Prop where
  visit : Agrees m links tour.visit plain.result
  entered : tour.entered = plain.entered.map fun picks => cells ++ picks.map m.cellOf

def Descends (m : Matrix) (covered : List Nat) (column : Nat) (cells : List Nat)
    (descend : Nat → Links → Stats → Except Fault Tour) (plain : LiveRow → Stats → Remainder.Tour)
    (live : LiveRow) : Prop :=
  ∀ selected, Covered m (covered ++ column :: Remainder.others live column) selected →
    ∀ stats : Stats, ∃ tour, descend (m.place column live) selected (stats.tryRow
        (((m.remainder covered).strike column).costAll (Remainder.others live column))) = .ok tour ∧
      Follows m selected (cells ++ [m.place column live]) tour (plain live stats)

theorem tourRows_follows (hbranch : Branch m covered column links branched)
    {descend : Nat → Links → Stats → Except Fault Tour} {plain : LiveRow → Stats → Remainder.Tour}
    {lives : List LiveRow} {cells : List Nat}
    (hlives : ∀ live ∈ lives, live ∈ (m.remainder covered).candidates column)
    (hdescend : ∀ live ∈ lives, Descends m covered column cells descend plain live)
    {start steps : Nat}
    (hleads : Leads branched.down start (lives.map (m.place column)) (column + 1))
    (hsteps : lives.length ≤ steps) (stats : Stats) :
    ∃ tour, tourRows descend (column + 1) steps (branched.down start) branched stats = .ok tour ∧
      Follows m links cells tour (Remainder.tourRows plain column lives stats) := by
  induction lives generalizing start steps stats with
  | nil =>
    have hend : branched.down start = column + 1 := hleads
    refine ⟨⟨{ links, stats, found := none }, []⟩, ?_, .failed stats, rfl⟩
    rw [hend, tourRows.eq_def]
    simp only [if_true, hbranch.uncover, ok_bind]
    rfl
  | cons live lives ih =>
    have hlive := hlives live List.mem_cons_self
    have hfirst : branched.down start = m.place column live := hleads.1
    obtain ⟨selected, hcover, hselected, huncover⟩ := hbranch.select hlive
    obtain ⟨tour, htour, hvisit, hentered⟩ := hdescend live List.mem_cons_self selected hselected stats
    cases steps with
    | zero => simp at hsteps
    | succ steps =>
      have hbelow : tour.entered = ((plain live stats).entered.map ({ column, live } :: ·)).map
          fun picks => cells ++ picks.map m.cellOf := by
        rw [hentered, List.map_map]
        refine List.map_congr_left fun picks _ => ?_
        rw [List.append_assoc]
        rfl
      rw [hfirst, tourRows, if_neg (hbranch.place_ne live), hcover]
      simp only [ok_bind, htour]
      rw [Remainder.tourRows]
      generalize (plain live stats).result = result at hvisit
      generalize tour.visit = visit at hvisit
      cases hvisit with
      | found after hcompletes =>
        exact ⟨_, rfl, .found after (hcompletes.cons hbranch hlive huncover), hbelow⟩
      | failed after =>
        obtain ⟨further, hrest, hagrees, hafter⟩ :=
          ih (fun l hl => hlives l (List.mem_cons_of_mem live hl))
            (fun l hl => hdescend l (List.mem_cons_of_mem live hl)) hleads.2
            (Nat.le_of_succ_le_succ hsteps) after.backtrack
        refine ⟨⟨further.visit, tour.entered ++ further.entered⟩, ?_, hagrees, ?_⟩
        · simp only [huncover, ok_bind, hbranch.node_place hlive]
          exact bind_eq_ok_iff.2 ⟨further, hrest, rfl⟩
        · rw [hbelow, hafter, ← List.map_append]

/-- The tour of the recursion follows the plain one, whatever has been covered before. -/
theorem tour_follows (selector : Selector) (h : Covered m covered links) {levels steps : Nat}
    (hlevels : (m.remainder covered).columns.length < levels)
    (hsteps : (m.remainder covered).columns.length < steps) (cells : List Nat) (stats : Stats) :
    ∃ tour, Recursive.tour selector steps cells links stats = .ok tour ∧
      Follows m links cells tour
        (Remainder.tour selector levels cells.length (m.remainder covered) stats) := by
  induction levels generalizing covered links steps cells stats with
  | zero => cases hlevels
  | succ levels ih =>
    cases steps with
    | zero => cases hsteps
    | succ steps =>
      have hhere : [cells] = [[]].map fun picks => cells ++ picks.map m.cellOf := by simp
      rw [tour, h.pick_eq]
      cases hpick : (m.remainder covered).pick selector with
      | none =>
        rw [Remainder.tour_solved hpick]
        exact ⟨_, rfl, .found _ (.nil h.toLaid), hhere⟩
      | some column =>
        have hcolumn := Remainder.pick_mem hpick
        simp only [Option.map_some, ok_bind, h.count_eq hcolumn]
        by_cases hnone : (m.remainder covered).candidates column = []
        · rw [Remainder.tour_deadEnd hpick hnone, hnone]
          exact ⟨_, rfl, .failed _, hhere⟩
        · obtain ⟨branched, hcover, hbranch⟩ := h.branch hcolumn
          have hnode := node_eq_ok (hbranch.covered.header_lt hbranch.lt_numColumns)
          have hdescend : ∀ live ∈ (m.remainder covered).candidates column,
              Descends m covered column cells
                (fun cell => tour selector steps (cells ++ [cell]))
                ((m.remainder covered).tourBelow selector levels cells.length column) live := by
            intro live hlive selected hselected stats
            have hones := (Matrix.mem_candidates_remainder.1 hlive).2.2
            have hlt := Remainder.length_columns_select hcolumn hones
            have hlength : cells.length + 1 = (cells ++ [m.place column live]).length := by simp
            rw [Matrix.remainder_select covered hones] at hlt
            rw [Remainder.tourBelow, Matrix.remainder_select covered hones, hlength]
            exact ih hselected (Nat.lt_of_lt_of_le hlt (Nat.le_of_lt_succ hlevels))
              (Nat.lt_of_lt_of_le hlt (Nat.le_of_lt_succ hsteps)) _ _
          obtain ⟨below, hbelow, hvisit, hentered⟩ := tourRows_follows hbranch
            (fun _ hlive => hlive) hdescend hbranch.loop.leads
            (hbranch.covered.length_candidates_le covered column)
            ((stats.enter cells.length).update ((m.remainder covered).cost column))
          rw [Remainder.tour_branch hpick hnone]
          refine ⟨⟨below.visit, cells :: below.entered⟩, ?_, hvisit, ?_⟩
          · simp only [List.length_eq_zero_iff, hnone, if_false, hcover, ok_bind, hnode]
            exact bind_eq_ok_iff.2 ⟨below, hbelow, rfl⟩
          · rw [hentered]
            exact congrArg (· ++ _) hhere

theorem search_agrees (selector : Selector) (h : Covered m covered links) {levels steps : Nat}
    (hlevels : (m.remainder covered).columns.length < levels)
    (hsteps : (m.remainder covered).columns.length < steps) (stats : Stats) :
    ∃ visit, search selector steps 0 links stats = .ok visit ∧
      Agrees m links visit (Remainder.search selector levels 0 (m.remainder covered) stats) := by
  obtain ⟨tour, htour, hvisit, -⟩ := tour_follows selector h hlevels hsteps [] stats
  have hsearch := visit_tour selector steps [] links stats
  rw [htour] at hsearch
  rw [Remainder.result_tour] at hvisit
  exact ⟨tour.visit, hsearch.symm, hvisit⟩

end Recursive

end ExactCover
