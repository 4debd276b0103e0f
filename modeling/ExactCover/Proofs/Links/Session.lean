import Mathlib.Logic.Relation
import ExactCover.Matrix.Samples
import ExactCover.Proofs.Links.Check
import ExactCover.Proofs.Links.Selected
import ExactCover.Proofs.Links.Walk
/-!
Moves that are made and taken back like a stack. As long as only active columns are covered and only
the last standing move is taken back, no move fails, the structure stays sound, and taking a move
back restores the links that it was made on.
-/

namespace ExactCover

def Move.inverse : Move → Move
  | cover column => uncover column
  | uncover column => cover column
  | coverRow cell => uncoverRow cell
  | uncoverRow cell => coverRow cell

/-- Links with the moves that are still standing, the last one first, each with the links that it was
made on. -/
structure Session where
  links : Links
  made : List (Move × Links)

inductive Turn
  | make (move : Move)
  | takeBack

namespace Session

def start (links : Links) : Session := { links, made := [] }

/-- Makes a move, or takes the last standing one back by its inverse. -/
def turn (s : Session) : Turn → Except Fault Session
  | .make move => do
    let (links, _) ← s.links.move move
    return { links, made := (move, s.links) :: s.made }
  | .takeBack =>
    match s.made with
    | [] => .ok s
    | (move, _) :: made => do
      let (links, _) ← s.links.move move.inverse
      return { links, made }

/-- An active header may be covered, and a cell's row where all other cells of it have an active
header; the cell's own column need not be active. -/
def Permits (s : Session) : Turn → Prop
  | .make (.cover header) => ∃ headers, s.links.columns = .ok headers ∧ header ∈ headers
  | .make (.coverRow cell) => ∃ node others headers,
      s.links.node cell = .ok node ∧ node.row ≠ none ∧
      s.links.rowCells cell = .ok others ∧ s.links.columns = .ok headers ∧
      ∀ other ∈ others, ∃ node, s.links.node other = .ok node ∧ node.column ∈ headers
  | .make (.uncover _) | .make (.uncoverRow _) => False
  | .takeBack => s.made ≠ []

def Next (s t : Session) : Prop := ∃ turn, s.Permits turn ∧ s.turn turn = .ok t

def Reaches : Session → Session → Prop := Relation.ReflTransGen Next

/-- Columns of the matrix are covered, and every standing move leads back to the links that it was
made on, which are sound in turn. -/
inductive Sound (m : Matrix) : Session → Prop
  | start {links : Links} (h : Links.Covered m [] links) : Sound m (start links)
  | made {covered : List Nat} {links before : Links} {move : Move} {made : List (Move × Links)}
      (h : Links.Covered m covered links) (hback : links.move move.inverse = .ok (before, none))
      (hbefore : Sound m { links := before, made }) :
      Sound m { links, made := (move, before) :: made }

variable {m : Matrix} {s t : Session} {covered : List Nat} {column cell header : Nat}

theorem Sound.exists_covered (h : Sound m s) : ∃ covered, Links.Covered m covered s.links := by
  cases h with
  | start h => exact ⟨[], h⟩
  | @made covered _ _ _ _ h _ _ => exact ⟨covered, h⟩

theorem Sound.make {move : Move} {links : Links} {updates : Option Nat} (h : Sound m s)
    (hmove : s.links.move move = .ok (links, updates)) (hcovered : Links.Covered m covered links)
    (hback : links.move move.inverse = .ok (s.links, none)) :
    ∃ t, s.turn (.make move) = .ok t ∧ Sound m t := by
  refine ⟨{ links, made := (move, s.links) :: s.made }, ?_, .made hcovered hback h⟩
  rw [turn, hmove]
  rfl

theorem Sound.takeBack (h : Sound m s) {move : Move} {before : Links}
    {made : List (Move × Links)} (hmade : s.made = (move, before) :: made) :
    s.turn .takeBack = .ok { links := before, made } ∧ Sound m { links := before, made } := by
  cases h with
  | start h => cases hmade
  | made h hback hbefore =>
    cases hmade
    refine ⟨?_, hbefore⟩
    simp only [turn, hback]
    rfl

section Make

variable (h : Sound m s) (hcovered : Links.Covered m covered s.links)
include h hcovered

theorem Sound.make_cover (hpermits : s.Permits (.make (.cover header))) :
    ∃ t, s.turn (.make (.cover header)) = .ok t ∧ Sound m t := by
  obtain ⟨headers, hheaders, hmem⟩ := hpermits
  cases hheaders.symm.trans hcovered.columns_eq
  obtain ⟨column, hcolumn, rfl⟩ := List.mem_map.1 hmem
  obtain ⟨hlt, hfresh⟩ := Matrix.mem_columns_remainder.1 hcolumn
  obtain ⟨links, hcover, hnext, huncover⟩ := hcovered.cover hlt hfresh
  have hmove : s.links.move (.cover (column + 1)) =
      .ok (links, some ((m.remainder covered).cost column)) := by
    rw [Links.move, hcover]
    rfl
  apply h.make hmove hnext
  rw [Move.inverse, Links.move, huncover]
  rfl

theorem Sound.make_coverRow (hpermits : s.Permits (.make (.coverRow cell))) :
    ∃ t, s.turn (.make (.coverRow cell)) = .ok t ∧ Sound m t := by
  obtain ⟨node, others, headers, hnode, hrow, hothers, hheaders, hactive⟩ := hpermits
  have hcell : cell < s.links.size := by
    by_contra hge
    simp [Links.node, Nat.le_of_not_lt (show ¬ cell < s.links.nodes.size from hge)] at hnode
  cases hnode.symm.trans (Links.node_eq_ok hcell)
  have hlarge : m.numColumns < cell := by
    by_contra hle
    exact hrow (hcovered.frame.row_of_le cell (hcovered.numColumns_eq.symm ▸ Nat.le_of_not_lt hle))
  obtain ⟨live, hlive, column, hcolumn, rfl⟩ := hcovered.exists_place hlarge hcell
  cases hothers.symm.trans (hcovered.rowCells_eq hlive hcolumn)
  cases hheaders.symm.trans hcovered.columns_eq
  -- An active header is that of a column which is not covered.
  have hfresh : ∀ other ∈ Remainder.others live column, other ∉ covered := by
    intro other hother
    have hones := (Remainder.mem_others.1 hother).1
    obtain ⟨node, hnode, hmem⟩ := hactive (m.place other live) (List.mem_map_of_mem hother)
    cases hnode.symm.trans (Links.node_eq_ok (hcovered.place_lt hlive hones))
    rw [show (s.links.get (m.place other live)).column = other + 1 from
      hcovered.header_place hlive hones] at hmem
    obtain ⟨active, hactive, heq⟩ := List.mem_map.1 hmem
    cases heq
    exact (Matrix.mem_columns_remainder.1 hactive).2
  obtain ⟨links, hcover, hnext, huncover⟩ := hcovered.coverRow hlive hcolumn hfresh
  have hmove : s.links.move (.coverRow (m.place column live)) =
      .ok (links, some ((m.remainder covered).costAll (Remainder.others live column))) := by
    rw [Links.move, hcover]
    rfl
  apply h.make hmove hnext
  rw [Move.inverse, Links.move, huncover]
  rfl

end Make

/-- One turn: what is permitted succeeds and keeps the session sound. -/
theorem Sound.turn (h : Sound m s) {turn : Turn} (hpermits : s.Permits turn) :
    ∃ t, s.turn turn = .ok t ∧ Sound m t := by
  obtain ⟨covered, hcovered⟩ := h.exists_covered
  cases turn with
  | make move =>
    cases move with
    | cover header => exact h.make_cover hcovered hpermits
    | coverRow cell => exact h.make_coverRow hcovered hpermits
    | uncover => cases hpermits
    | uncoverRow => cases hpermits
  | takeBack =>
    obtain ⟨⟨move, before⟩, made, hmade⟩ := List.exists_cons_of_ne_nil hpermits
    exact ⟨_, h.takeBack hmade⟩

/-- A run of any length: all that is reached from a sound session is sound. -/
theorem Sound.reaches (h : Sound m s) (hreaches : Reaches s t) : Sound m t := by
  induction hreaches with
  | refl => exact h
  | tail _ hnext ih =>
    obtain ⟨turn, hpermits, hturn⟩ := hnext
    obtain ⟨next, hnext, hsound⟩ := ih.turn hpermits
    cases hturn.symm.trans hnext
    exact hsound

theorem Sound.check_eq (h : Sound m s) : s.links.check = .ok none := by
  obtain ⟨covered, hcovered⟩ := h.exists_covered
  exact hcovered.check_eq

/-- However moves on the links of a matrix are nested, as long as they are permitted: the check finds
nothing, the next permitted turn succeeds, and taking a move back restores what was there before. -/
theorem stack_discipline (m : Matrix) (h : Reaches (start (Links.ofMatrix m)) s) :
    s.links.check = .ok none ∧
    (∀ turn, s.Permits turn → ∃ t, s.turn turn = .ok t ∧ t.links.check = .ok none) ∧
    ∀ move before made, s.made = (move, before) :: made →
      s.turn .takeBack = .ok { links := before, made } := by
  have hsound : Sound m s := (Sound.start (Links.covered_ofMatrix m)).reaches h
  refine ⟨hsound.check_eq, fun turn hpermits => ?_, fun move before made hmade => ?_⟩
  · obtain ⟨t, hturn, ht⟩ := hsound.turn hpermits
    exact ⟨t, hturn, ht.check_eq⟩
  · exact (hsound.takeBack hmade).1

/-- The row of cell 7 has gone with column 2, and its other column is covered on top of that. -/
theorem stack_discipline_fourRows :
    ∃ s, Reaches (start (Links.ofMatrix Links.fourRows)) s ∧
      s.made.map Prod.fst = [.coverRow 7, .cover 3] ∧
      s.links.check = .ok none ∧
      (∀ turn, s.Permits turn → ∃ t, s.turn turn = .ok t ∧ t.links.check = .ok none) ∧
      ∀ move before made, s.made = (move, before) :: made →
        s.turn .takeBack = .ok { links := before, made } := by
  obtain ⟨⟨first, _⟩, hcover, hcolumns, hothers, ⟨cell, hcell, hrow⟩, ⟨other, hother, hactive⟩,
      ⟨second, _⟩, hcoverRow⟩ :
      ∃ first, (Links.ofMatrix Links.fourRows).cover 3 = .ok first ∧
        first.1.columns = .ok [1, 2] ∧ first.1.rowCells 7 = .ok [6] ∧
        (∃ node, first.1.node 7 = .ok node ∧ node.row ≠ none) ∧
        (∃ node, first.1.node 6 = .ok node ∧ node.column ∈ [1, 2]) ∧
        ∃ second, first.1.coverRow 7 = .ok second :=
    ⟨_, rfl, rfl, rfl, ⟨_, rfl, by decide⟩, ⟨_, rfl, by decide⟩, _, rfl⟩
  have hfirst : Next (start (Links.ofMatrix Links.fourRows))
      { links := first, made := [(.cover 3, Links.ofMatrix Links.fourRows)] } := by
    refine ⟨.make (.cover 3), ⟨[1, 2, 3], rfl, by decide⟩, ?_⟩
    simp only [turn, start, Links.move, hcover, ok_bind]
    rfl
  have hsecond : Next { links := first, made := [(.cover 3, Links.ofMatrix Links.fourRows)] }
      { links := second, made := [(.coverRow 7, first), (.cover 3, Links.ofMatrix Links.fourRows)] } := by
    refine ⟨.make (.coverRow 7), ⟨cell, [6], [1, 2], hcell, hrow, hothers, hcolumns, ?_⟩, ?_⟩
    · intro id hid
      cases List.mem_singleton.1 hid
      exact ⟨other, hother, hactive⟩
    · simp only [turn, Links.move, hcoverRow, ok_bind]
      rfl
  have hreaches := Relation.ReflTransGen.refl.tail hfirst |>.tail hsecond
  exact ⟨_, hreaches, rfl, stack_discipline Links.fourRows hreaches⟩

end Session

end ExactCover
