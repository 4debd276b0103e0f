import ExactCover.Proofs.Links.Check
/-!
The check decides what it is meant to decide, on any arena whose links stay inside it. Links may
have been bent at will, so a list need not close at all: it may run into a ring that its start does
not lie on. The check goes forwards only and compares each step with the way back; that alone keeps
it from meeting a node twice, so the limits of its walks stop nothing that is sound.
-/

namespace ExactCover

variable {next prev : Nat → Nat} {a x stop start : Nat} {l : List Nat}

/-- From `start` the steps of `next` visit the members of `l`, none of them twice, and return; the
steps of `prev` visit the same members in the opposite order. -/
structure Circles (next prev : Nat → Nat) (start : Nat) (l : List Nat) : Prop where
  nodup : (start :: l).Nodup
  forwards : Leads next start l start
  backwards : Leads prev start l.reverse start

theorem circles_iff : Circles next prev start l ↔ Loop next prev start l := by
  constructor
  · intro h
    exact ⟨h.nodup, h.forwards, h.forwards.prev_next h.backwards⟩
  · intro h
    exact ⟨h.nodup, h.leads, h.symm.leads⟩

/-- A part of the way around, from `a` up to `stop`, of which each step can be taken back. -/
structure Strand (next prev : Nat → Nat) (a : Nat) (l : List Nat) (stop : Nat) : Prop where
  leads : Leads next a l stop
  stop_not_mem : stop ∉ l
  back : ∀ c ∈ a :: l, prev (next c) = c

namespace Strand

theorem nil (hnext : next a = stop) (hprev : prev stop = a) : Strand next prev a [] stop where
  leads := hnext
  stop_not_mem := List.not_mem_nil
  back := List.forall_mem_singleton.2 (hnext ▸ hprev)

theorem cons (h : Strand next prev x l stop) (hne : x ≠ stop) (hnext : next a = x)
    (hprev : prev x = a) : Strand next prev a (x :: l) stop where
  leads := ⟨hnext, h.leads⟩
  stop_not_mem := by
    rw [List.mem_cons, not_or]
    exact ⟨hne.symm, h.stop_not_mem⟩
  back := List.forall_mem_cons.2 ⟨hnext ▸ hprev, h.back⟩

theorem circles (h : Strand next prev start l start) : Circles next prev start l :=
  circles_iff.2 ⟨h.leads.nodup h.back h.stop_not_mem, h.leads, h.back⟩

end Strand

namespace Links

variable {links : Links} {header cell above before : Nat} {steps found : Nat}

/-- A column as it should be: its cells can be visited downwards and upwards, the live count is their
number, and each of them hangs there by right. -/
structure SoundColumn (links : Links) (header : Nat) (cells : List Nat) : Prop where
  circles : Circles links.down links.up header cells
  count : links.counts[header]? = some cells.length
  hangs : ∀ cell ∈ cells, links.Hangs header cell

/-- A structure as it should be: the root carries no tags and no cells, the headers can be visited
rightwards and leftwards, and each of them has a sound column. -/
structure Consistent (links : Links) : Prop where
  root_row : links.row root = none
  root_header : links.header root = root
  root_up : links.up root = root
  root_down : links.down root = root
  columns : ∃ headers, Circles links.right links.left root headers ∧
    ∀ header ∈ headers, links.isHeader header = true ∧ ∃ cells, links.SoundColumn header cells

theorem Consistent.exists_wellLinked (h : links.Consistent) :
    ∃ headers cells, WellLinked headers cells links := by
  obtain ⟨headers, hring, hcolumns⟩ := h.columns
  choose! cells hcells using fun header hmem => (hcolumns header hmem).2
  exact ⟨headers, cells,
    { root_row := h.root_row
      root_header := h.root_header
      root_up := h.root_up
      root_down := h.root_down
      ring := circles_iff.1 hring
      isHeader := fun header hmem => (hcolumns header hmem).1
      column := fun header hmem => circles_iff.1 (hcells header hmem).circles
      count := fun header hmem => (hcells header hmem).count
      hangs := fun header hmem => (hcells header hmem).hangs }⟩

/-- A check that comes to its end, and has nothing to report only where `P` holds. -/
def Vouches (check : Except Fault (Option Violation)) (P : Prop) : Prop :=
  ∃ reported, check = .ok reported ∧ (reported = none → P)

namespace Vouches

variable {P Q : Prop} {check : Except Fault (Option Violation)}

theorem report (violation : Violation) : Vouches (.ok (some violation)) P :=
  ⟨_, rfl, fun h => by cases h⟩

theorem pass (h : P) : Vouches (.ok none) P := ⟨_, rfl, fun _ => h⟩

theorem imp (h : Vouches check P) (himp : P → Q) : Vouches check Q := by
  obtain ⟨reported, heq, hP⟩ := h
  exact ⟨reported, heq, fun hnone => himp (hP hnone)⟩

theorem guard {c : Prop} [Decidable c] {violation : Violation} (h : ¬ c → Vouches check P) :
    Vouches (if c then .ok (some violation) else check) P := by
  by_cases hc : c
  · rw [if_pos hc]
    exact .report violation
  · rw [if_neg hc]
    exact h hc

end Vouches

theorem checkCells_header (hheader : header < links.size) (hcounts : header < links.counts.size)
    (hdown : links.down above = header) :
    Vouches (links.checkCells header steps found above header)
      (∃ rest, Strand links.down links.up above rest header ∧
        (∀ cell ∈ rest, links.Hangs header cell) ∧
        links.counts[header]? = some (found + rest.length)) := by
  have hcount := Array.getElem?_eq_getElem hcounts
  rw [checkCells.eq_def]
  simp only [if_true, node_eq_ok hheader, count_eq_ok hcount, ok_bind, pure, Except.pure]
  refine .guard fun hup => .guard fun hfound =>
    .pass ⟨[], .nil hdown (not_not.1 hup), List.forall_mem_nil _, ?_⟩
  rw [hcount, ← not_not.1 hfound]
  rfl

theorem checkHeaders_root (hroot : root < links.size) (hright : links.right before = root) :
    Vouches (links.checkHeaders steps before root)
      (∃ headers, Strand links.right links.left before headers root ∧ ∀ header ∈ headers,
        links.isHeader header = true ∧ ∃ cells, links.SoundColumn header cells) := by
  rw [checkHeaders.eq_def]
  simp only [if_true, node_eq_ok hroot, ok_bind, pure, Except.pure]
  exact .guard fun hleft => .pass ⟨[], .nil hright (not_not.1 hleft), List.forall_mem_nil _⟩

section Check

variable (hinside : links.Inside)
include hinside

theorem checkCell_vouches (hcell : cell < links.size) (habove : above < links.size) :
    Vouches (links.checkCell header above cell)
      (links.Hangs header cell ∧ links.up cell = above ∧ links.down above = cell) := by
  have hleft : (links.get cell).left < links.size := hinside.left_lt cell hcell
  have hright : (links.get cell).right < links.size := hinside.right_lt cell hcell
  rw [checkCell]
  simp only [node_eq_ok hcell, node_eq_ok habove, node_eq_ok hleft, node_eq_ok hright, ok_bind,
    pure, Except.pure]
  refine .guard fun hheader => .guard fun hrow => .guard fun hup => .guard fun hdown =>
    .guard fun hafter => .guard fun hbefore => .guard fun hsame => .pass ?_
  have hhangs : links.Hangs header cell :=
    { header_eq := not_not.1 hheader
      row_ne_none := hrow
      left_right := not_not.1 hafter
      right_left := not_not.1 hbefore
      row_right := not_not.1 hsame }
  exact ⟨hhangs, not_not.1 hup, not_not.1 hdown⟩

/-- What is left of a column below `above`, after `found` cells. -/
theorem checkCells_vouches (hheader : header < links.size) (hcounts : header < links.counts.size)
    (habove : above < links.size) :
    Vouches (links.checkCells header steps found above (links.down above))
      (∃ rest, Strand links.down links.up above rest header ∧
        (∀ cell ∈ rest, links.Hangs header cell) ∧
        links.counts[header]? = some (found + rest.length)) := by
  induction steps generalizing above found with
  | zero =>
    by_cases hend : links.down above = header
    · rw [hend]
      exact checkCells_header hheader hcounts hend
    · rw [checkCells.eq_def]
      simp only [hend, if_false]
      exact .report _
  | succ steps ih =>
    by_cases hend : links.down above = header
    · rw [hend]
      exact checkCells_header hheader hcounts hend
    · have hcell : links.down above < links.size := hinside.down_lt above habove
      have hchecked : Vouches (links.checkCell header above (links.down above)) _ :=
        checkCell_vouches hinside hcell habove
      obtain ⟨reported, hreported, hsound⟩ := hchecked
      rw [checkCells.eq_def]
      simp only [hend, if_false, hreported, ok_bind, node_eq_ok hcell]
      cases reported with
      | some violation => exact .report violation
      | none =>
        obtain ⟨hhangs, hup, -⟩ := hsound rfl
        refine Vouches.imp (ih hcell) ?_
        rintro ⟨rest, hstrand, hrest, hcount⟩
        refine ⟨links.down above :: rest, hstrand.cons hend rfl hup,
          List.forall_mem_cons.2 ⟨hhangs, hrest⟩, ?_⟩
        rw [hcount, List.length_cons, Nat.add_right_comm, Nat.add_assoc]

theorem checkColumn_vouches (hheader : header < links.size) (hcounts : header < links.counts.size) :
    Vouches (links.checkCells header links.size 0 header (links.down header))
      (∃ cells, links.SoundColumn header cells) := by
  refine Vouches.imp (checkCells_vouches hinside hheader hcounts hheader) ?_
  rintro ⟨cells, hstrand, hhangs, hcount⟩
  rw [Nat.zero_add] at hcount
  exact ⟨cells, hstrand.circles, hcount, hhangs⟩

variable (hcounts : links.counts.size = links.numColumns + 1)
include hcounts

/-- What is left of the header list to the right of `before`. -/
theorem checkHeaders_vouches (hbefore : before < links.size) :
    Vouches (links.checkHeaders steps before (links.right before))
      (∃ headers, Strand links.right links.left before headers root ∧ ∀ header ∈ headers,
        links.isHeader header = true ∧ ∃ cells, links.SoundColumn header cells) := by
  have hroot : root < links.size := Nat.lt_of_le_of_lt (Nat.zero_le _) hbefore
  induction steps generalizing before with
  | zero =>
    by_cases hend : links.right before = root
    · rw [hend]
      exact checkHeaders_root hroot hend
    · rw [checkHeaders.eq_def]
      simp only [hend, if_false]
      exact .report _
  | succ steps ih =>
    by_cases hend : links.right before = root
    · rw [hend]
      exact checkHeaders_root hroot hend
    · have hlt : links.right before < links.size := hinside.right_lt before hbefore
      rw [checkHeaders.eq_def]
      simp only [hend, if_false, node_eq_ok hlt, node_eq_ok hbefore, ok_bind, pure, Except.pure]
      refine .guard fun hisHeader => .guard fun hleft => .guard fun _ => ?_
      have hheader : links.isHeader (links.right before) = true := by simpa using hisHeader
      have hcount : links.right before < links.counts.size := by
        simp only [isHeader, Bool.and_eq_true, decide_eq_true_eq] at hheader
        omega
      obtain ⟨reported, hreported, hcolumn⟩ := checkColumn_vouches hinside hlt hcount
      change links.checkCells (links.right before) links.size 0 (links.right before)
        (links.get (links.right before)).down = .ok reported at hreported
      rw [hreported, ok_bind]
      cases reported with
      | some violation => exact .report violation
      | none =>
        refine Vouches.imp (ih hlt) ?_
        rintro ⟨headers, hstrand, hheaders⟩
        exact ⟨_, hstrand.cons hend rfl (not_not.1 hleft),
          List.forall_mem_cons.2 ⟨⟨hheader, hcolumn rfl⟩, hheaders⟩⟩

theorem check_vouches (hsize : links.numColumns < links.size) :
    Vouches links.check links.Consistent := by
  have hroot : root < links.size := Nat.lt_of_le_of_lt (Nat.zero_le _) hsize
  rw [check]
  simp only [node_eq_ok hroot, ok_bind, pure, Except.pure]
  refine .guard fun htags => .guard fun hvertical => ?_
  obtain ⟨hrow, hheader⟩ := not_or.1 htags
  obtain ⟨hup, hdown⟩ := not_or.1 hvertical
  refine Vouches.imp (checkHeaders_vouches hinside hcounts hroot) ?_
  rintro ⟨headers, hstrand, hheaders⟩
  exact
    { root_row := not_not.1 hrow
      root_header := not_not.1 hheader
      root_up := not_not.1 hup
      root_down := not_not.1 hdown
      columns := ⟨headers, hstrand.circles, hheaders⟩ }

end Check

/-- The check always comes to its end, and it has nothing to report exactly where the structure is
consistent. -/
theorem check_decides_consistent (links : Links) (hsize : links.numColumns < links.size)
    (hcounts : links.counts.size = links.numColumns + 1) (hinside : links.Inside) :
    ∃ reported, links.check = .ok reported ∧ (reported = none ↔ links.Consistent) := by
  obtain ⟨reported, hreported, hsound⟩ := check_vouches hinside hcounts hsize
  refine ⟨reported, hreported, hsound, fun h => ?_⟩
  obtain ⟨headers, cells, hlinked⟩ := h.exists_wellLinked
  have hnone : links.check = .ok none := hlinked.check_eq hinside hsize
  rw [hreported] at hnone
  exact Except.ok.inj hnone

/-- Two headers whose rightward links run into a ring that the root does not lie on. -/
def ringBesideRoot : Links where
  nodes := #[
    { left := 2, right := 1, up := 0, down := 0, column := 0, row := none },
    { left := 0, right := 2, up := 1, down := 1, column := 1, row := none },
    { left := 1, right := 1, up := 2, down := 2, column := 2, row := none }]
  counts := #[0, 0, 0]
  numColumns := 2
  numRows := 0

theorem check_decides_consistent_ringBesideRoot :
    ringBesideRoot.numColumns < ringBesideRoot.size ∧
    ringBesideRoot.counts.size = ringBesideRoot.numColumns + 1 ∧ ringBesideRoot.Inside ∧
    ringBesideRoot.check = .ok (some .headersDoNotReturn) ∧ ¬ ringBesideRoot.Consistent := by
  have hinside : ringBesideRoot.Inside := ⟨by decide, by decide, by decide, by decide⟩
  have hcheck : ringBesideRoot.check = .ok (some .headersDoNotReturn) := rfl
  obtain ⟨reported, hreported, hiff⟩ :=
    check_decides_consistent ringBesideRoot (by decide) rfl hinside
  rw [hcheck] at hreported
  cases hreported
  exact ⟨by decide, rfl, hinside, hcheck, fun h => Option.some_ne_none _ (hiff.2 h)⟩

end Links

end ExactCover
