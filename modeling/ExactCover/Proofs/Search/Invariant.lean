import ExactCover.Matrix.Samples
import ExactCover.Proofs.Search.Refuted
/-!
What holds whenever the machine goes around its loop. Its links are those that making the choices of
its stack again would lead to. Each choice was picked on the links that the earlier ones had left,
and the rows above it in its column have been tried and are refuted. Descending and backtracking
keep this, so it holds of every state that a run comes to. A state that goes back has refuted its
selection.
-/

namespace ExactCover

/-- A choice selects a row by a cell of that row in the choice's column. -/
def Choice.Selects (links : Links) (choice : Choice) (row : Nat) : Prop :=
  ∃ node, links.node choice.cell = .ok node ∧ node.column = choice.column ∧ node.row = some row

/-- The links once the choices of a stack have been made on them again, the last of the stack
first. -/
def Links.replay (links : Links) : List Choice → Except Fault Links
  | [] => .ok links
  | choice :: earlier => do
    let links ← links.replay earlier
    let (links, _) ← links.cover choice.column
    let (links, _) ← links.coverRow choice.cell
    return links

namespace Machine

open Links

variable {m : Matrix} {selector : Selector} {entered entered' : List Choice → Prop}
  {picks upper : List Selection} {links branched : Links} {column : Nat} {live : LiveRow}
  {above remaining below : List LiveRow} {s t : Machine} {stack : List Choice}

/-- The machine has entered the partial solution of a stack on its way to a state. -/
def Entered (m : Matrix) (selector : Selector) (s : Machine) (stack : List Choice) : Prop :=
  ∃ t, Reaches selector (start (ofMatrix m)) t ∧ Reaches selector t s ∧
    t.mode = .descend ∧ t.stack = stack

theorem Entered.here (h : Reaches selector (start (ofMatrix m)) s) (hmode : s.mode = .descend) :
    Entered m selector s s.stack := ⟨s, h, .refl, hmode, rfl⟩

theorem Entered.next (h : Entered m selector s stack) (hnext : Next selector s t) :
    Entered m selector t stack := by
  obtain ⟨u, hbefore, hafter, hmode, hstack⟩ := h
  exact ⟨u, hbefore, hafter.tail hnext, hmode, hstack⟩

/-- A column that the selector picks on the links of selected rows, once it has been covered: the
rows above those that remain are among what has been `entered`, and they are refuted. -/
structure Opened (m : Matrix) (selector : Selector) (entered : List Choice → Prop)
    (picks : List Selection) (column : Nat) (above remaining : List LiveRow)
    (links branched : Links) : Prop where
  pick : (m.remainder (struckBy picks)).pick selector = some column
  cover : ∃ updates, links.cover (column + 1) = .ok (branched, updates)
  branch : Branch m (struckBy picks) column links branched
  candidates : (m.remainder (struckBy picks)).candidates column = above ++ remaining
  tried : ∀ live ∈ above, entered (({ column, live } :: picks).map (choiceOf m))
  failed : ∀ live ∈ above, m.Refuted (Remainder.selectedRows ({ column, live } :: picks))

namespace Opened

theorem mono (h : Opened m selector entered picks column above remaining links branched)
    (hmono : ∀ stack, entered stack → entered' stack) :
    Opened m selector entered' picks column above remaining links branched where
  pick := h.pick
  cover := h.cover
  branch := h.branch
  candidates := h.candidates
  tried := fun live hlive => hmono _ (h.tried live hlive)
  failed := h.failed

theorem mem_candidates
    (h : Opened m selector entered picks column above (live :: remaining) links branched) :
    live ∈ (m.remainder (struckBy picks)).candidates column :=
  h.candidates ▸ List.mem_append_cons_self

theorem leads
    (h : Opened m selector entered picks column above (live :: remaining) links branched) :
    Leads branched.down (m.place column live) (remaining.map (m.place column)) (column + 1) := by
  have hleads := h.branch.loop.leads
  rw [h.candidates, List.map_append, List.map_cons, leads_append] at hleads
  exact hleads.2

theorem fail (h : Opened m selector entered picks column above (live :: remaining) links branched)
    (htried : entered (({ column, live } :: picks).map (choiceOf m)))
    (hfailed : m.Refuted (Remainder.selectedRows ({ column, live } :: picks))) :
    Opened m selector entered picks column (above ++ [live]) remaining links branched where
  pick := h.pick
  cover := h.cover
  branch := h.branch
  candidates := h.candidates.trans (List.append_cons above live remaining)
  tried := List.forall_mem_append.2 ⟨h.tried, List.forall_mem_singleton.2 htried⟩
  failed := List.forall_mem_append.2 ⟨h.failed, List.forall_mem_singleton.2 hfailed⟩

theorem refuted (h : Opened m selector entered picks column above [] links branched)
    (hpicks : ∀ pick ∈ picks, pick.live ∈ liveRows m.rows ∧ pick.column ∈ pick.live.ones) :
    m.Refuted (Remainder.selectedRows picks) := by
  refine Matrix.refuted_of_candidates hpicks h.branch.mem_columns ?_
  rw [h.candidates, List.append_nil]
  exact h.failed

end Opened

/-- Rows that are selected one on the other, the last one first, each of them the first that remains
of a column that is open on top of the earlier ones, with the links that they have led to. -/
inductive Stands (m : Matrix) (selector : Selector) (entered : List Choice → Prop) :
    List Selection → Links → Prop
  | nil : Stands m selector entered [] (ofMatrix m)
  | push {picks : List Selection} {column : Nat} {live : LiveRow} {above below : List LiveRow}
      {links branched selected : Links} (h : Stands m selector entered picks links)
      (hopened : Opened m selector entered picks column above (live :: below) links branched)
      (hcover : ∃ updates, branched.coverRow (m.place column live) = .ok (selected, updates))
      (huncover : selected.uncoverRow (m.place column live) = .ok branched)
      (hcovered : Covered m (struckBy ({ column, live } :: picks)) selected)
      (hentered : entered (({ column, live } :: picks).map (choiceOf m))) :
      Stands m selector entered ({ column, live } :: picks) selected

namespace Stands

theorem covered (h : Stands m selector entered picks links) :
    Covered m (struckBy picks) links := by
  cases h with
  | nil => exact covered_ofMatrix m
  | push _ _ _ _ hcovered => exact hcovered

theorem mono (h : Stands m selector entered picks links)
    (hmono : ∀ stack, entered stack → entered' stack) : Stands m selector entered' picks links := by
  induction h with
  | nil => exact .nil
  | push _ hopened hcover huncover hcovered hentered ih =>
    exact .push ih (hopened.mono hmono) hcover huncover hcovered (hmono _ hentered)

theorem mem_liveRows (h : Stands m selector entered picks links) :
    ∀ pick ∈ picks, pick.live ∈ liveRows m.rows ∧ pick.column ∈ pick.live.ones := by
  induction h with
  | nil => exact List.forall_mem_nil _
  | push _ hopened _ _ _ _ ih =>
    obtain ⟨hlive, -, hones⟩ := Matrix.mem_candidates_remainder.1 hopened.mem_candidates
    exact List.forall_mem_cons.2 ⟨⟨hlive, hones⟩, ih⟩

theorem exists_lower (h : Stands m selector entered (upper ++ picks) links) :
    ∃ lower, Stands m selector entered picks lower := by
  induction upper generalizing links with
  | nil => exact ⟨links, h⟩
  | cons _ upper ih =>
    cases h with
    | push hlower => exact ih hlower

theorem replay_eq (h : Stands m selector entered picks links) :
    (ofMatrix m).replay (picks.map (choiceOf m)) = .ok links := by
  induction h with
  | nil => rfl
  | push _ hopened hcover _ _ _ ih =>
    obtain ⟨_, hopen⟩ := hopened.cover
    obtain ⟨_, hcover⟩ := hcover
    simp only [List.map_cons, replay, ih, ok_bind, choiceOf, Matrix.cellOf, hopen, hcover]
    rfl

theorem disjoint (h : Stands m selector entered picks links) :
    (Remainder.selectedRows picks).Pairwise fun row other =>
      ∀ column, m.isSet row column = true → m.isSet other column = false := by
  induction h with
  | nil => exact .nil
  | push hlower hopened _ _ _ _ ih =>
    obtain ⟨hlive, havoids, -⟩ := Matrix.mem_candidates_remainder.1 hopened.mem_candidates
    refine List.pairwise_cons.2 ⟨fun row hrow column hset => ?_, ih⟩
    obtain ⟨pick, hpick, rfl⟩ := List.mem_map.1 hrow
    have hpicks := hlower.mem_liveRows
    -- A column that both rows set has been struck out, and candidates avoid what has.
    by_contra hother
    have hshared := (Matrix.isSet_row (hpicks pick hpick).1).1 (Bool.eq_true_of_not_eq_false hother)
    have hstruck := (mem_struckBy fun pick hpick => (hpicks pick hpick).2).2 ⟨pick, hpick, hshared⟩
    exact havoids column hstruck ((Matrix.isSet_row hlive).1 hset)

end Stands

theorem selects_choiceOf (h : Laid m links)
    (hpicks : ∀ pick ∈ picks, pick.live ∈ liveRows m.rows ∧ pick.column ∈ pick.live.ones) :
    List.Forall₂ (Choice.Selects links) (picks.map (choiceOf m))
      (Remainder.selectedRows picks) := by
  rw [Remainder.selectedRows, List.forall₂_map_left_iff, List.forall₂_map_right_iff,
    List.forall₂_same]
  intro pick hpick
  obtain ⟨hlive, hones⟩ := hpicks pick hpick
  exact ⟨_, node_eq_ok (h.place_lt hlive hones), h.header_place hlive hones,
    h.row_place hlive hones⟩

/-- A state that a run comes to stands on the selected rows of its stack, and a state that goes back
has refuted them. -/
structure Sound (m : Matrix) (selector : Selector) (picks : List Selection) (s : Machine) :
    Prop where
  reaches : Reaches selector (start (ofMatrix m)) s
  stack_eq : s.stack = picks.map (choiceOf m)
  stands : Stands m selector (Entered m selector s) picks s.links
  refuted : s.mode = .backtrack ∨ s.mode = .exhausted → m.Refuted (Remainder.selectedRows picks)

namespace Sound

theorem stay (h : Sound m selector picks s) (hnext : Next selector s t)
    (hstack : t.stack = s.stack) (hlinks : t.links = s.links)
    (hrefuted : t.mode = .backtrack ∨ t.mode = .exhausted →
      m.Refuted (Remainder.selectedRows picks)) : Sound m selector picks t where
  reaches := h.reaches.tail hnext
  stack_eq := hstack.trans h.stack_eq
  stands := hlinks ▸ h.stands.mono fun _ hentered => hentered.next hnext
  refuted := hrefuted

theorem select (hreaches : Reaches selector (start (ofMatrix m)) s) (hrunning : ¬ s.Stopped)
    (hstands : Stands m selector (Entered m selector s) picks links)
    (hopened : Opened m selector (Entered m selector s) picks column above (live :: below) links
      branched) {stats : Stats}
    (hstep : s.step selector =
      Machine.select (picks.map (choiceOf m)) (column + 1) (m.place column live) branched stats) :
    ∃ t picks', s.step selector = .ok t ∧ Sound m selector picks' t := by
  obtain ⟨selected, hcover, hcovered, huncover⟩ := hopened.branch.select hopened.mem_candidates
  rw [Machine.select, hcover] at hstep
  have hnext := And.intro hrunning hstep
  have hmono : ∀ stack, Entered m selector s stack → Entered m selector _ stack :=
    fun _ hentered => hentered.next hnext
  have hentered := Entered.here (hreaches.tail hnext) rfl
  have hselected := Stands.push (hstands.mono hmono) (hopened.mono hmono) ⟨_, hcover⟩ huncover
    hcovered hentered
  exact ⟨_, _, hstep, hreaches.tail hnext, rfl, hselected, by rintro (h | h) <;> cases h⟩

/-- Descending enters the selected rows, and opens a column unless none or one without rows is
picked. -/
theorem descend (h : Sound m selector picks s) (hmode : s.mode = .descend) :
    ∃ t picks', s.step selector = .ok t ∧ Sound m selector picks' t := by
  have hrunning : ¬ s.Stopped := by simp [Stopped, hmode]
  have hcovered := h.stands.covered
  cases hpick : (m.remainder (struckBy picks)).pick selector with
  | none =>
    have hstep := step_solved hcovered hmode hpick
    exact ⟨_, picks, hstep, h.stay ⟨hrunning, hstep⟩ rfl rfl (by rintro (h | h) <;> cases h)⟩
  | some column =>
    have hcolumn := Remainder.pick_mem hpick
    cases hcandidates : (m.remainder (struckBy picks)).candidates column with
    | nil =>
      have hstep := step_deadEnd hcovered hmode hpick hcandidates
      have hrefuted : m.Refuted (Remainder.selectedRows picks) :=
        Matrix.refuted_of_candidates h.stands.mem_liveRows hcolumn
          (hcandidates ▸ List.forall_mem_nil _)
      exact ⟨_, picks, hstep, h.stay ⟨hrunning, hstep⟩ rfl rfl fun _ => hrefuted⟩
    | cons live below =>
      obtain ⟨branched, hcover, hbranch⟩ := hcovered.branch hcolumn
      have hopened : Opened m selector (Entered m selector s) picks column [] (live :: below)
          s.links branched :=
        ⟨hpick, ⟨_, hcover⟩, hbranch, hcandidates, List.forall_mem_nil _, List.forall_mem_nil _⟩
      have hstep := step_branch hcovered hmode hpick hcandidates hcover hbranch
      rw [h.stack_eq] at hstep
      exact select h.reaches hrunning h.stands hopened hstep

/-- Going back takes the last row back, and selects the next one of its column or closes it. -/
theorem backtrack (h : Sound m selector picks s) (hmode : s.mode = .backtrack) :
    ∃ t picks', s.step selector = .ok t ∧ Sound m selector picks' t := by
  have hrunning : ¬ s.Stopped := by simp [Stopped, hmode]
  have hfailed := h.refuted (.inl hmode)
  have hstands := h.stands
  generalize hlinks : s.links = links at hstands
  cases hstands with
  | nil =>
    have hstep : s.step selector = .ok { s with mode := .exhausted } := by
      simp only [step, hmode, Machine.backtrack, h.stack_eq, List.map_nil]
    exact ⟨_, [], hstep, h.stay ⟨hrunning, hstep⟩ rfl rfl fun _ => hfailed⟩
  | @push picks column live above below lower branched _ hlower hopened _ huncover _ hentered =>
    subst hlinks
    have hbranch := hopened.branch
    have hlive := hopened.mem_candidates
    have hleads := hopened.leads
    -- The last row joins those above it; where it was the last of its column, nothing remains.
    have hfailed := hopened.fail hentered hfailed
    cases below with
    | nil =>
      have hstep : s.step selector = _ :=
        step_close hbranch hlive hmode h.stack_eq huncover hleads
      have hnext := And.intro hrunning hstep
      have hclosed := hfailed.refuted hlower.mem_liveRows
      exact ⟨_, picks, hstep, h.reaches.tail hnext, rfl,
        hlower.mono fun _ hentered => hentered.next hnext, fun _ => hclosed⟩
    | cons next below =>
      exact select h.reaches hrunning hlower hfailed
        (step_retry hbranch hlive hmode h.stack_eq huncover hleads.1)

/-- A machine that has not stopped takes a step, and is sound after it. -/
theorem step (h : Sound m selector picks s) (hrunning : ¬ s.Stopped) :
    ∃ t picks', s.step selector = .ok t ∧ Sound m selector picks' t := by
  cases hmode : s.mode with
  | descend => exact h.descend hmode
  | backtrack => exact h.backtrack hmode
  | solved => exact absurd (.inl hmode) hrunning
  | exhausted => exact absurd (.inr hmode) hrunning

end Sound

theorem sound_start (m : Matrix) (selector : Selector) :
    Sound m selector [] (start (ofMatrix m)) where
  reaches := .refl
  stack_eq := rfl
  stands := .nil
  refuted := by rintro (h | h) <;> cases h

/-- A run of any length: all states that it comes to are sound. -/
theorem exists_sound (h : Reaches selector (start (ofMatrix m)) s) :
    ∃ picks, Sound m selector picks s := by
  induction h with
  | refl => exact ⟨[], sound_start m selector⟩
  | tail _ hnext ih =>
    obtain ⟨picks, hsound⟩ := ih
    obtain ⟨t, picks', hstep, ht⟩ := hsound.step hnext.1
    cases hstep.symm.trans hnext.2
    exact ⟨picks', ht⟩

/-- How a choice was made on top of earlier ones: the selector picked its column on the links that
the earlier ones lead to, and each row that stands above the chosen one in that column has been
tried there and belongs to no exact cover together with the earlier rows. -/
structure Level (m : Matrix) (selector : Selector) (s : Machine) (choice : Choice)
    (earlier : List Choice) (links : Links) (above below : List Nat) : Prop where
  replay : (ofMatrix m).replay earlier = .ok links
  pick : selector.pick links = .ok (some choice.column)
  columnCells : links.columnCells choice.column = .ok (above ++ choice.cell :: below)
  tried : ∀ cell ∈ above, Entered m selector s ({ choice with cell } :: earlier) ∧
    ∃ rows, List.Forall₂ (Choice.Selects links) ({ choice with cell } :: earlier) rows ∧
      m.Refuted rows

theorem Stands.exists_level
    (h : Stands m selector (Entered m selector s) ({ column, live } :: picks) links) :
    ∃ lower above below, Level m selector s (choiceOf m { column, live }) (picks.map (choiceOf m))
      lower above below := by
  cases h with
  | @push _ _ _ above below lower _ _ hlower hopened =>
    have hcovered := hlower.covered
    obtain ⟨hlt, hfresh⟩ := Matrix.mem_columns_remainder.1 hopened.branch.mem_columns
    refine ⟨lower, above.map (m.place column), below.map (m.place column), hlower.replay_eq, ?_, ?_,
      fun cell hcell => ?_⟩
    · rw [hcovered.pick_eq, hopened.pick]
      rfl
    · rw [choiceOf, hcovered.columnCells_eq hlt, Matrix.cellsLeft_of_not_mem hfresh,
        hopened.candidates, List.map_append, List.map_cons]
      rfl
    · obtain ⟨other, hother, rfl⟩ := List.mem_map.1 hcell
      obtain ⟨hlive, -, hones⟩ := Matrix.mem_candidates_remainder.1
        (hopened.candidates ▸ List.mem_append_left _ hother)
      have hpicks : ∀ pick ∈ { column, live := other } :: picks,
          pick.live ∈ liveRows m.rows ∧ pick.column ∈ pick.live.ones :=
        List.forall_mem_cons.2 ⟨⟨hlive, hones⟩, hlower.mem_liveRows⟩
      exact ⟨hopened.tried other hother, _, selects_choiceOf hcovered.toLaid hpicks,
        hopened.failed other hother⟩

/-- What holds of a state whose stack selects the listed rows, the last one first. -/
structure Invariant (m : Matrix) (selector : Selector) (s : Machine) (rows : List Nat) : Prop where
  selects : List.Forall₂ (Choice.Selects s.links) s.stack rows
  disjoint : rows.Pairwise fun row other =>
    ∀ column, m.isSet row column = true → m.isSet other column = false
  replay : (ofMatrix m).replay s.stack = .ok s.links
  level : ∀ later choice earlier, s.stack = later ++ choice :: earlier →
    ∃ links above below, Level m selector s choice earlier links above below
  refuted : s.mode = .backtrack ∨ s.mode = .exhausted → m.Refuted rows
  progress : ∃ t, s.step selector = .ok t

theorem Sound.level (h : Sound m selector picks s) (later : List Choice) (choice : Choice)
    (earlier : List Choice) (hstack : s.stack = later ++ choice :: earlier) :
    ∃ links above below, Level m selector s choice earlier links above below := by
  obtain ⟨upper, rest, rfl, -, hrest⟩ := List.map_eq_append_iff.1 (h.stack_eq.symm.trans hstack)
  obtain ⟨pick, picks, rfl, rfl, rfl⟩ := List.map_eq_cons_iff.1 hrest
  obtain ⟨lower, hlower⟩ := h.stands.exists_lower
  exact hlower.exists_level

theorem Sound.progress (h : Sound m selector picks s) : ∃ t, s.step selector = .ok t := by
  by_cases hstopped : s.Stopped
  · refine ⟨s, ?_⟩
    rcases hstopped with hmode | hmode <;> simp only [Machine.step, hmode]
  · obtain ⟨t, -, hstep, -⟩ := h.step hstopped
    exact ⟨t, hstep⟩

/-- Whichever column selector is used, each state that the search of a matrix comes to satisfies the
invariant. -/
theorem run_invariant (m : Matrix) (selector : Selector)
    (h : Reaches selector (start (ofMatrix m)) s) : ∃ rows, Invariant m selector s rows := by
  obtain ⟨picks, hsound⟩ := exists_sound h
  refine ⟨Remainder.selectedRows picks, ?_, hsound.stands.disjoint, ?_, hsound.level,
    hsound.refuted, hsound.progress⟩
  · rw [hsound.stack_eq]
    exact selects_choiceOf hsound.stands.covered.toLaid hsound.stands.mem_liveRows
  · rw [hsound.stack_eq]
    exact hsound.stands.replay_eq

/-- Row 0 has been tried and taken back in column 0, and row 2 is selected on top of row 1. -/
theorem run_invariant_fourRows : ∃ s, Reaches .leftmost (start (ofMatrix fourRows)) s ∧
    s.stack = [{ column := 2, cell := 8 }, { column := 1, cell := 6 }] ∧
    ∃ rows, Invariant fourRows .leftmost s rows := by
  obtain ⟨first, hfirst, hrunning, failed, hfailed, hback, second, hsecond, hagain, last, hlast,
      hstack⟩ :
      ∃ first, (start (ofMatrix fourRows)).step .leftmost = .ok first ∧ first.mode = .descend ∧
        ∃ failed, first.step .leftmost = .ok failed ∧ failed.mode = .backtrack ∧
        ∃ second, failed.step .leftmost = .ok second ∧ second.mode = .descend ∧
        ∃ last, second.step .leftmost = .ok last ∧
          last.stack = [{ column := 2, cell := 8 }, { column := 1, cell := 6 }] :=
    ⟨_, rfl, rfl, _, rfl, rfl, _, rfl, rfl, _, rfl, rfl⟩
  have hreaches : Reaches .leftmost (start (ofMatrix fourRows)) last :=
    .head ⟨by simp [Stopped, start], hfirst⟩ <| .head ⟨by simp [Stopped, hrunning], hfailed⟩ <|
      .head ⟨by simp [Stopped, hback], hsecond⟩ <|
      .head ⟨by simp [Stopped, hagain], hlast⟩ .refl
  exact ⟨last, hreaches, hstack, run_invariant fourRows .leftmost hreaches⟩

end Machine

end ExactCover
