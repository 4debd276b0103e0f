import Mathlib.Logic.Relation
import ExactCover.Proofs.Search.Effort
import ExactCover.Proofs.Search.Level
/-!
The machine with the explicit stack visits what the plain search visits. Below the choices that are
on the stack when it descends, it comes back with the same stack and links, or it stops with more
choices on top that complete them. Its counts tell the time, so that a bound on the counts is one on
the steps.
-/

namespace ExactCover

namespace Machine

open Links

variable {selector : Selector} {s t u : Machine}

def Stopped (s : Machine) : Prop := s.mode = .solved ∨ s.mode = .exhausted

/-- One step of a machine that has not stopped. -/
def Next (selector : Selector) (s t : Machine) : Prop := ¬ s.Stopped ∧ s.step selector = .ok t

def Reaches (selector : Selector) : Machine → Machine → Prop := Relation.ReflTransGen (Next selector)

/-- The steps that the counts tell: partial solutions entered, rows taken back, and the last stop. -/
def clock (s : Machine) : Nat := s.stats.effort + if s.mode = .exhausted then 1 else 0

theorem clock_select {stack : List Choice} {column cell : Nat} {links : Links} {stats : Stats}
    (h : select stack column cell links stats = .ok t) :
    t.clock = stats.effort := by
  obtain ⟨⟨covered, updates⟩, -, h⟩ := bind_eq_ok_iff.1 h
  cases h
  rfl

theorem clock_descend (h : s.descend selector = .ok t) :
    t.clock = s.stats.effort + 1 := by
  obtain ⟨pick, -, h⟩ := bind_eq_ok_iff.1 h
  cases pick with
  | none =>
    cases h
    simp [clock]
  | some column =>
    obtain ⟨count, -, h⟩ := bind_eq_ok_iff.1 h
    split at h
    case isTrue =>
      cases h
      simp [clock]
    case isFalse =>
      obtain ⟨⟨covered, updates⟩, -, h⟩ := bind_eq_ok_iff.1 h
      obtain ⟨node, -, h⟩ := bind_eq_ok_iff.1 h
      rw [clock_select h]
      simp

theorem clock_backtrack (h : s.backtrack = .ok t) :
    t.clock = s.stats.effort + 1 := by
  rw [backtrack] at h
  split at h
  · cases h
    simp [clock]
  · obtain ⟨links, -, h⟩ := bind_eq_ok_iff.1 h
    obtain ⟨node, -, h⟩ := bind_eq_ok_iff.1 h
    split at h
    case isTrue =>
      obtain ⟨links, -, h⟩ := bind_eq_ok_iff.1 h
      cases h
      simp [clock]
    case isFalse =>
      rw [clock_select h]
      simp

theorem Next.clock_eq (h : Next selector s t) : t.clock = s.clock + 1 := by
  obtain ⟨hrunning, hstep⟩ := h
  rw [step] at hstep
  split at hstep
  case h_1 hmode => rw [clock_descend hstep, clock, if_neg (by simp [hmode])]
  case h_2 hmode => rw [clock_backtrack hstep, clock, if_neg (by simp [hmode])]
  case h_3 hmode => exact absurd (.inl hmode) hrunning
  case h_4 hmode => exact absurd (.inr hmode) hrunning

/-- The states of a run up to the last one, which is not among them. -/
inductive Passes (selector : Selector) : Machine → List Machine → Machine → Prop
  | refl (s : Machine) : Passes selector s [] s
  | head {s t u : Machine} {states : List Machine} (hnext : Next selector s t)
      (h : Passes selector t states u) : Passes selector s (s :: states) u

namespace Passes

variable {states later : List Machine}

theorem single (hnext : Next selector s t) : Passes selector s [s] t := .head hnext (.refl t)

theorem trans (h : Passes selector s states t) (hlater : Passes selector t later u) :
    Passes selector s (states ++ later) u := by
  induction h with
  | refl => exact hlater
  | head hnext _ ih => exact .head hnext (ih hlater)

theorem reaches (h : Passes selector s states t) : Reaches selector s t := by
  induction h with
  | refl => exact .refl
  | head hnext _ ih => exact .head hnext ih

theorem clock_le (h : Passes selector s states t) : s.clock ≤ t.clock := by
  induction h with
  | refl => exact Nat.le_refl _
  | head hnext _ ih =>
    rw [hnext.clock_eq] at ih
    exact Nat.le_of_succ_le ih

/-- The run comes to where the machine stops, by way of the states that it passes, if the steps reach
as far as the counts tell. -/
theorem run_eq (h : Passes selector s states t) (hstopped : t.Stopped) {steps : Nat}
    (hsteps : t.clock ≤ s.clock + steps) :
    run selector steps s = .ok t ∧ history selector steps s = .ok states := by
  induction h generalizing steps with
  | refl => cases steps <;> exact ⟨if_pos hstopped, if_pos hstopped⟩
  | @head s u t states hnext hrest ih =>
    have hle : u.clock ≤ t.clock := hrest.clock_le
    have hclock := hnext.clock_eq
    cases steps with
    | zero => omega
    | succ steps =>
      have hbelow : t.clock ≤ u.clock + steps := by omega
      obtain ⟨hrun, hhistory⟩ := ih hstopped hbelow
      constructor
      · refine (if_neg hnext.1).trans ?_
        rw [hnext.2, ok_bind]
        exact hrun
      · refine (if_neg hnext.1).trans ?_
        rw [hnext.2, ok_bind, hhistory]
        rfl

end Passes

theorem descents_append (states later : List Machine) :
    descents (states ++ later) = descents states ++ descents later := by
  simp [descents]

def choiceOf (m : Matrix) (pick : Selection) : Choice :=
  { column := pick.column + 1, cell := m.cellOf pick }

def pushAll (m : Matrix) (stack : List Choice) (picks : List Selection) : List Choice :=
  (picks.map (choiceOf m)).reverse ++ stack

theorem pushAll_cons (m : Matrix) (stack : List Choice) (pick : Selection)
    (picks : List Selection) :
    pushAll m stack (pick :: picks) = pushAll m (choiceOf m pick :: stack) picks := by
  simp [pushAll]

section Step

variable {m : Matrix} {links branched : Links} {stack : List Choice} {covered : List Nat}
  {column : Nat} {live below : LiveRow} {lives : List LiveRow}

section Descend

variable (h : Covered m covered s.links) (hmode : s.mode = .descend)
include h hmode

theorem step_solved (hpick : (m.remainder covered).pick selector = none) :
    s.step selector = .ok { s with mode := .solved, stats := s.stats.enter s.stack.length } := by
  simp only [step, hmode, descend, h.pick_eq, hpick, Option.map_none, ok_bind]
  rfl

theorem step_deadEnd (hpick : (m.remainder covered).pick selector = some column)
    (hcandidates : (m.remainder covered).candidates column = []) :
    s.step selector =
      .ok { s with mode := .backtrack, stats := (s.stats.enter s.stack.length).deadEnd } := by
  simp only [step, hmode, descend, h.pick_eq, hpick, Option.map_some,
    h.count_eq (Remainder.pick_mem hpick), hcandidates, ok_bind]
  rfl

theorem step_branch (hpick : (m.remainder covered).pick selector = some column)
    (hcandidates : (m.remainder covered).candidates column = live :: lives) {updates : Nat}
    (hcover : s.links.cover (column + 1) = .ok (branched, updates))
    (hbranch : Branch m covered column s.links branched) :
    s.step selector = select s.stack (column + 1) (m.place column live) branched
      ((s.stats.enter s.stack.length).update updates) := by
  have hnode := node_eq_ok (hbranch.covered.header_lt hbranch.lt_numColumns)
  have hleads := hbranch.loop.leads
  rw [hcandidates] at hleads
  have hfirst : (branched.get (column + 1)).down = m.place column live := hleads.1
  simp only [step, hmode, descend, h.pick_eq, hpick, Option.map_some,
    h.count_eq (Remainder.pick_mem hpick), hcandidates, List.length_cons, Nat.add_one_ne_zero,
    if_false, hcover, hnode, hfirst, ok_bind]

end Descend

section Backtrack

variable (hbranch : Branch m covered column links branched)
  (hlive : live ∈ (m.remainder covered).candidates column) (hmode : s.mode = .backtrack)
  (hstack : s.stack = choiceOf m { column, live } :: stack)
  (huncover : s.links.uncoverRow (m.place column live) = .ok branched)
include hbranch hlive hmode hstack huncover

/-- Where the last choice's row was the last one of its column, both are taken back. -/
theorem step_close (hdown : (branched.get (m.place column live)).down = column + 1) :
    s.step selector = .ok { mode := .backtrack, stack, links, stats := s.stats.backtrack } := by
  simp only [step, hmode, backtrack, hstack, choiceOf, Matrix.cellOf, huncover,
    hbranch.node_place hlive, hdown, hbranch.uncover, ok_bind, if_true]
  rfl

/-- Else the last choice goes on to the row below. -/
theorem step_retry (hdown : (branched.get (m.place column live)).down = m.place column below) :
    s.step selector = select stack (column + 1) (m.place column below) branched
      s.stats.backtrack := by
  simp only [step, hmode, backtrack, hstack, choiceOf, Matrix.cellOf, huncover,
    hbranch.node_place hlive, hdown, ok_bind, if_neg (hbranch.place_ne below)]

end Backtrack

end Step

/-- How the machine ends a descent: back at the stack and the links of its start, or stopped with
choices on top of the stack that complete the selection. On the way it enters what the plain search
enters, on top of the same stack. -/
inductive Ends (selector : Selector) (m : Matrix) (start : Machine) (stack : List Choice)
    (links : Links) : Remainder.Tour → Prop
  | failed {stats : Stats} {states : List Machine} {entered : List (List Selection)}
      (h : Passes selector start states { mode := .backtrack, stack, links, stats })
      (hentered : descents states = entered.map (pushAll m stack)) :
      Ends selector m start stack links { result := (stats, none), entered }
  | solved {stats : Stats} {states : List Machine} {entered : List (List Selection)}
      {choices : List Choice} {final : Links} {rows : List Nat}
      (h : Passes selector start states
        { mode := .solved, stack := choices.reverse ++ stack, links := final, stats })
      (hcompletes : Completes m links final (choices.map Choice.cell) rows)
      (hentered : descents states = entered.map (pushAll m stack)) :
      Ends selector m start stack links { result := (stats, some rows), entered }

section Ends

variable {m : Matrix} {links branched : Links} {stack : List Choice} {covered : List Nat}
  {column : Nat} {live : LiveRow}

theorem Ends.of_passes {states : List Machine} {before : List (List Selection)}
    {plain : Remainder.Tour} (h : Ends selector m t stack links plain)
    (hpasses : Passes selector s states t) (hbefore : descents states = before.map (pushAll m stack)) :
    Ends selector m s stack links { result := plain.result, entered := before ++ plain.entered } := by
  cases h with
  | failed h hentered =>
    refine .failed (hpasses.trans h) ?_
    rw [descents_append, hbefore, hentered, List.map_append]
  | solved h hcompletes hentered =>
    refine .solved (hpasses.trans h) hcompletes ?_
    rw [descents_append, hbefore, hentered, List.map_append]

/-- The descent below a row that has just been selected ends as the plain search says. -/
def Descends (selector : Selector) (m : Matrix) (covered : List Nat) (column : Nat)
    (stack : List Choice) (plain : LiveRow → Stats → Remainder.Tour) (live : LiveRow) : Prop :=
  ∀ selected, Covered m (covered ++ column :: Remainder.others live column) selected →
    ∀ stats : Stats, Ends selector m
      { mode := .descend, stack := choiceOf m { column, live } :: stack, links := selected,
        stats := stats.tryRow
          (((m.remainder covered).strike column).costAll (Remainder.others live column)) }
      (choiceOf m { column, live } :: stack) selected (plain live stats)

variable {plain : LiveRow → Stats → Remainder.Tour} {lives : List LiveRow}

/-- Selecting a row, where it is known how the machine goes on once that row has failed. -/
theorem select_ends (hbranch : Branch m covered column links branched)
    (hlive : live ∈ (m.remainder covered).candidates column)
    (hdescend : Descends selector m covered column stack plain live)
    (hretry : ∀ selected, selected.uncoverRow (m.place column live) = .ok branched →
      ∀ stats : Stats, Ends selector m
        { mode := .backtrack, stack := choiceOf m { column, live } :: stack, links := selected, stats }
        stack links (Remainder.tourRows plain column lives stats.backtrack))
    (stats : Stats) :
    ∃ next, select stack (column + 1) (m.place column live) branched stats = .ok next ∧
      Ends selector m next stack links (Remainder.tourRows plain column (live :: lives) stats) := by
  obtain ⟨selected, hcover, hselected, huncover⟩ := hbranch.select hlive
  have hends := hdescend selected hselected stats
  have hpush : ∀ entered : List (List Selection),
      entered.map (pushAll m (choiceOf m { column, live } :: stack)) =
        (entered.map ({ column, live } :: ·)).map (pushAll m stack) := by
    intro entered
    rw [List.map_map]
    exact List.map_congr_left fun picks _ => (pushAll_cons m stack _ picks).symm
  rw [select, hcover, Remainder.tourRows]
  refine ⟨_, rfl, ?_⟩
  generalize plain live stats = tour at hends
  cases hends with
  | failed h hentered => exact (hretry selected huncover _).of_passes h (hentered.trans (hpush _))
  | @solved _ _ _ choices _ _ h hcompletes hentered =>
    have hstack : choices.reverse ++ choiceOf m { column, live } :: stack =
        (choiceOf m { column, live } :: choices).reverse ++ stack := by simp
    rw [hstack] at h
    exact .solved h (hcompletes.cons hbranch hlive huncover) (hentered.trans (hpush _))

theorem retry_ends (hbranch : Branch m covered column links branched)
    (hlives : ∀ l ∈ live :: lives, l ∈ (m.remainder covered).candidates column)
    (hdescend : ∀ l ∈ lives, Descends selector m covered column stack plain l)
    (hleads : Leads branched.down (m.place column live) (lives.map (m.place column)) (column + 1))
    (selected : Links) (huncover : selected.uncoverRow (m.place column live) = .ok branched)
    (stats : Stats) :
    Ends selector m
      { mode := .backtrack, stack := choiceOf m { column, live } :: stack, links := selected, stats }
      stack links (Remainder.tourRows plain column lives stats.backtrack) := by
  induction lives generalizing live selected stats with
  | nil =>
    exact .failed (.single ⟨by simp [Stopped],
      step_close hbranch (hlives live List.mem_cons_self) rfl rfl huncover hleads⟩) rfl
  | cons below lives ih =>
    have hlives' : ∀ l ∈ below :: lives, l ∈ (m.remainder covered).candidates column :=
      fun l hl => hlives l (List.mem_cons_of_mem live hl)
    obtain ⟨next, hselect, hends⟩ := select_ends hbranch (hlives' below List.mem_cons_self)
      (hdescend below List.mem_cons_self)
      (ih hlives' (fun l hl => hdescend l (List.mem_cons_of_mem below hl)) hleads.2)
      stats.backtrack
    have hstep : Next selector
        { mode := .backtrack, stack := choiceOf m { column, live } :: stack, links := selected, stats }
        next :=
      ⟨by simp [Stopped], (step_retry hbranch (hlives live List.mem_cons_self) rfl rfl huncover
        hleads.1).trans hselect⟩
    exact hends.of_passes (.single hstep) (show _ = [].map (pushAll m stack) from rfl)

/-- The machine agrees with the plain search, whatever has been covered before. -/
theorem search_ends (selector : Selector) (h : Covered m covered links) {levels : Nat}
    (hlevels : (m.remainder covered).columns.length < levels) (stack : List Choice) (stats : Stats) :
    Ends selector m { mode := .descend, stack, links, stats } stack links
      (Remainder.tour selector levels stack.length (m.remainder covered) stats) := by
  induction levels generalizing covered links stack stats with
  | zero => cases hlevels
  | succ levels ih =>
    have hhere : descents [{ mode := .descend, stack, links, stats }] = [[]].map (pushAll m stack) := rfl
    cases hpick : (m.remainder covered).pick selector with
    | none =>
      rw [Remainder.tour_solved hpick]
      have hstep : Next selector { mode := .descend, stack, links, stats }
          { mode := .solved, stack := [].reverse ++ stack, links,
            stats := stats.enter stack.length } := ⟨by simp [Stopped], step_solved h rfl hpick⟩
      exact .solved (.single hstep) (.nil h.toLaid) hhere
    | some column =>
      have hcolumn := Remainder.pick_mem hpick
      cases hcandidates : (m.remainder covered).candidates column with
      | nil =>
        rw [Remainder.tour_deadEnd hpick hcandidates]
        exact .failed (.single ⟨by simp [Stopped], step_deadEnd h rfl hpick hcandidates⟩) hhere
      | cons live lives =>
        obtain ⟨branched, hcover, hbranch⟩ := h.branch hcolumn
        have hleads := hbranch.loop.leads
        rw [hcandidates] at hleads
        have hlives : ∀ l ∈ live :: lives, l ∈ (m.remainder covered).candidates column :=
          fun l hl => hcandidates ▸ hl
        have hdescend : ∀ l ∈ live :: lives, Descends selector m covered column stack
            ((m.remainder covered).tourBelow selector levels stack.length column) l := by
          -- A selection strikes the picked column out, so one level less is enough below it.
          intro l hl selected hselected stats
          have hones := (Matrix.mem_candidates_remainder.1 (hlives l hl)).2.2
          have hlt := Remainder.length_columns_select hcolumn hones
          rw [Matrix.remainder_select covered hones] at hlt
          rw [Remainder.tourBelow, Matrix.remainder_select covered hones]
          exact ih hselected (Nat.lt_of_lt_of_le hlt (Nat.le_of_lt_succ hlevels))
            (choiceOf m { column, live := l } :: stack) _
        -- The step that covers the column selects its first row too.
        obtain ⟨next, hselect, hends⟩ := select_ends hbranch (hlives live List.mem_cons_self)
          (hdescend live List.mem_cons_self)
          (retry_ends hbranch hlives (fun l hl => hdescend l (List.mem_cons_of_mem live hl)) hleads.2)
          ((stats.enter stack.length).update ((m.remainder covered).cost column))
        have hstep : Next selector { mode := .descend, stack, links, stats } next :=
          ⟨by simp [Stopped], (step_branch h rfl hpick hcandidates hcover hbranch).trans hselect⟩
        have hbranched := hends.of_passes (.single hstep) hhere
        rw [Remainder.tour_branch hpick (by simp [hcandidates]), Remainder.tourBranch, hcandidates]
        exact hbranched

end Ends

end Machine

end ExactCover
