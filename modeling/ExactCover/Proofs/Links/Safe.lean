import ExactCover.Proofs.Links.OneWay
/-!
Every move comes to its end, however tangled the links are that it is made on, as long as they lead
one way: each step of a walk comes nearer to where the walk stops. What can go wrong is only that the
move meets a node that is no header, or that a count would leave its range.
-/

namespace ExactCover

def Move.node : Move → Nat
  | cover id | uncover id | coverRow id | uncoverRow id => id

/-- The faults of a move in the wrong place or at the wrong time. -/
def Fault.IsMisuse (numColumns : Nat) : Fault → Prop
  | notHeader id => ¬ (id ≠ root ∧ id ≤ numColumns)
  | countUnderflow column | countOverflow column => column ≠ root ∧ column ≤ numColumns
  | outOfRange _ | endless => False

/-- What succeeds is as asked for, and what fails is a misuse. -/
def Safe {α : Type} (numColumns : Nat) (P : α → Prop) : Except Fault α → Prop
  | .ok a => P a
  | .error fault => fault.IsMisuse numColumns

section Safe

variable {α β : Type} {n : Nat} {P P' : α → Prop} {Q : β → Prop} {x : Except Fault α}
  {f : α → Except Fault β}

theorem Safe.bind (h : Safe n P x) (hf : ∀ a, P a → Safe n Q (f a)) : Safe n Q (x >>= f) := by
  cases x with
  | ok a => exact hf a h
  | error fault => exact h

theorem Safe.imp (h : Safe n P x) (himp : ∀ a, P a → P' a) : Safe n P' x := by
  cases x with
  | ok a => exact himp a h
  | error fault => exact h

theorem Safe.of_ok {a : α} (h : Safe n P x) (ha : x = .ok a) : P a := by
  rw [ha] at h
  exact h

theorem foldlM_safe {step : β → α → Except Fault β} {l : List α}
    (hstep : ∀ b, Q b → ∀ a ∈ l, Safe n Q (step b a)) {b : β} (hb : Q b) :
    Safe n Q (l.foldlM step b) := by
  induction l generalizing b with
  | nil => exact hb
  | cons a l ih =>
    rw [List.foldlM_cons]
    refine (hstep b hb a List.mem_cons_self).bind fun b' hb' => ?_
    exact ih (fun c hc d hd => hstep c hc d (List.mem_cons_of_mem a hd)) hb'

end Safe

namespace Links

variable {m : Matrix} {links links' : Links} {column cell id stop steps : Nat} {fault : Fault}
  {direction vertical horizontal : Node → Nat} {change : Links → Nat → Except Fault Links}
  {S : Nat → Prop} {rank : Nat → Nat} {l : List Nat}

section Change

variable (h : OneWay m links)
include h

theorem OneWay.unlink_safe (hcell : IsCell m column cell) :
    Safe m.numColumns (OneWay m) (links.unlink cell) := by
  obtain ⟨hcolumn, hlarge, hlt, hheader⟩ := h.lt_of_isCell hcell
  cases hresult : links.unlink cell with
  | ok links' =>
    rw [eq_unlinked h.closed hlt hresult]
    exact h.unlinked hlt (by omega)
  | error fault =>
    rw [unlink_eq_decreaseCount h.closed hlt, hheader] at hresult
    rw [fault_of_decreaseCount hresult (h.slot_lt hcolumn)]
    exact ⟨Nat.succ_ne_zero column, hcolumn⟩

theorem OneWay.relink_safe (hcell : IsCell m column cell) :
    Safe m.numColumns (OneWay m) (links.relink cell) := by
  obtain ⟨hcolumn, hlarge, hlt, hheader⟩ := h.lt_of_isCell hcell
  cases hresult : links.relink cell with
  | ok links' =>
    rw [eq_relinked h.closed hlt hresult]
    exact h.relinked hlt
  | error fault =>
    rw [relink_eq_increaseCount h.closed hlt, hheader] at hresult
    rw [fault_of_increaseCount hresult (h.slot_lt hcolumn)]
    exact ⟨Nat.succ_ne_zero column, hcolumn⟩

end Change

/-- What a walk in one direction meets behind a cell before it comes back to it, however the links
are tangled. -/
structure Round (m : Matrix) (horizontal : Node → Nat) (cell : Nat) (l : List Nat) : Prop where
  isCell : ∀ other ∈ cell :: l, ∃ column, IsCell m column other
  nodup : (cell :: l).Nodup
  leads : ∀ links, Laid m links → Leads (fun id => horizontal (links.get id)) cell l cell

/-- From every place in `S` one step leads to the stop or to a place in `S` that is nearer to it,
however the links are tangled. Nothing is asked for at the root, where every walk that changes links
comes to its end. -/
structure Approaches (m : Matrix) (direction : Node → Nat) (stop : Nat) (S : Nat → Prop)
    (rank : Nat → Nat) : Prop where
  lt : ∀ links, Laid m links → ∀ id, S id → id < links.size ∧ rank id < links.size
  step : ∀ links, OneWay m links → ∀ id, S id → links.header id ≠ root →
    direction (links.get id) = stop ∨
      (S (direction (links.get id)) ∧ rank (direction (links.get id)) < rank id)

/-- At the stop, or in a place from which fewer than `steps` steps lead there. -/
def Within (stop : Nat) (S : Nat → Prop) (rank : Nat → Nat) (steps id : Nat) : Prop :=
  id = stop ∨ (S id ∧ rank id < steps)

theorem Within.eq_stop (h : Within stop S rank 0 id) : id = stop :=
  h.resolve_right fun hlt => Nat.not_lt_zero _ hlt.2

section Approaches

variable (happroach : Approaches m direction stop S rank)
include happroach

theorem Approaches.within (h : Laid m links) (hid : id = stop ∨ S id) :
    Within stop S rank links.size id :=
  hid.imp_right fun hS => ⟨hS, (happroach.lt links h id hS).2⟩

theorem Approaches.within_next (h : OneWay m links) (hid : S id ∧ rank id < steps + 1)
    (hheader : links.header id ≠ root) : Within stop S rank steps (direction (links.get id)) := by
  refine (happroach.step links h id hid.1 hheader).imp_right ?_
  rintro ⟨hS, hlt⟩
  exact ⟨hS, Nat.lt_of_lt_of_le hlt (Nat.le_of_lt_succ hid.2)⟩

end Approaches

theorem Round.of_loop {live : LiveRow} (hlive : live ∈ liveRows m.rows) (hones : column ∈ live.ones)
    (hl : l ⊆ m.beside column live) (hloop : ∀ links, Laid m links →
      ∃ prev, Loop (fun id => horizontal (links.get id)) prev (m.place column live) l) :
    Round m horizontal (m.place column live) l where
  isCell := by
    intro id hid
    rcases List.mem_cons.1 hid with rfl | hid
    · exact ⟨column, live, hlive, hones, rfl⟩
    · obtain ⟨other, hother, rfl⟩ := List.mem_map.1 (hl hid)
      exact ⟨other, live, hlive, (Remainder.mem_others.1 hother).1, rfl⟩
  nodup := by
    obtain ⟨_, h⟩ := hloop _ (covered_ofMatrix m).toLaid
    exact h.nodup
  leads := by
    intro links h
    obtain ⟨_, h⟩ := hloop links h
    exact h.leads

theorem exists_round_right (hcell : IsCell m column cell) : ∃ l, Round m Node.right cell l := by
  obtain ⟨live, hlive, hones, rfl⟩ := hcell
  exact ⟨m.beside column live, Round.of_loop hlive hones (List.Subset.refl _)
    fun links h => ⟨links.left, h.row_loop hlive hones⟩⟩

theorem exists_round_left (hcell : IsCell m column cell) : ∃ l, Round m Node.left cell l := by
  obtain ⟨live, hlive, hones, rfl⟩ := hcell
  exact ⟨(m.beside column live).reverse, Round.of_loop hlive hones (fun _ => List.mem_reverse.1)
    fun links h => ⟨links.right, (h.row_loop hlive hones).symm⟩⟩

theorem Round.lt (hround : Round m horizontal cell l) (h : Laid m links) :
    ∀ other ∈ cell :: l, other < links.size := by
  intro other hother
  obtain ⟨column, hcell⟩ := hround.isCell other hother
  exact (h.lt_of_isCell hcell).2.2.1

theorem Round.approaches (hround : Round m horizontal cell l) :
    Approaches m horizontal cell (· ∈ l) fun id => l.length - l.idxOf id where
  lt := by
    intro links h id hid
    have hlength := length_le_of_forall_lt hround.nodup (hround.lt h)
    rw [List.length_cons] at hlength
    exact ⟨hround.lt h id (List.mem_cons_of_mem cell hid), by omega⟩
  step := by
    intro links h id hid _
    refine ((hround.leads links h.toLaid).nearer hround.nodup.of_cons hid).imp_right ?_
    rintro ⟨hmem, hlt⟩
    have hindex := List.idxOf_lt_length_of_mem hmem
    exact ⟨hmem, by omega⟩

theorem Round.start (hround : Round m horizontal cell l) (h : Laid m links) :
    horizontal (links.get cell) = cell ∨ horizontal (links.get cell) ∈ l := by
  have hnext := (hround.leads links h).next_mem List.mem_cons_self
  simpa [or_comm] using hnext

theorem approaches_down (m : Matrix) (column : Nat) : Approaches m Node.down (column + 1)
    (IsCell m column) fun id => m.numColumns + 1 + m.numOnes - id where
  lt := by
    intro links h id hid
    obtain ⟨-, hlarge, hlt, -⟩ := h.lt_of_isCell hid
    have hsize := h.size_eq
    exact ⟨hlt, by omega⟩
  step := by
    intro links h id hid _
    obtain ⟨-, -, hlt, hheader⟩ := h.lt_of_isCell hid
    have hsize := h.size_eq
    refine (h.down_cases hlt hheader).imp_right ?_
    rintro ⟨hcell, hfurther⟩
    exact ⟨hcell, Nat.sub_lt_sub_left (by omega) hfurther⟩

theorem approaches_up (m : Matrix) (column : Nat) :
    Approaches m Node.up (column + 1) (IsCell m column) fun id => id where
  lt := by
    intro links h id hid
    have hlt := (h.lt_of_isCell hid).2.2.1
    exact ⟨hlt, hlt⟩
  step := fun links h id hid _ => h.up_cases hid

theorem approaches_right (m : Matrix) (stop : Nat) :
    Approaches m Node.right stop (· ≤ m.numColumns) fun id =>
      if id = root then 0 else m.numColumns + 1 - id where
  lt := by
    intro links h id hid
    have hsize := h.size_eq
    refine ⟨by omega, ?_⟩
    split
    case isTrue => omega
    case isFalse hne =>
      have hpos := Nat.pos_of_ne_zero hne
      omega
  step := by
    intro links h id hid hheader
    have hne : id ≠ root := fun heq => hheader (heq ▸ h.header_root)
    refine .inr ⟨h.right_le id hid, ?_⟩
    rw [if_neg hne]
    change (if links.right id = root then 0 else m.numColumns + 1 - links.right id) < _
    rcases h.right id hid with hroot | hlt
    · rw [if_pos hroot]
      omega
    · rw [if_neg (show links.right id ≠ root from Nat.ne_zero_of_lt hlt)]
      exact Nat.sub_lt_sub_left (Nat.lt_succ_of_le hid) hlt

theorem approaches_left (m : Matrix) (stop : Nat) :
    Approaches m Node.left stop (· ≤ m.numColumns) fun id => id where
  lt := by
    intro links h id hid
    have hsize := h.size_eq
    have hlt : id < links.size := by omega
    exact ⟨hlt, hlt⟩
  step := by
    intro links h id hid hheader
    have hne : id ≠ root := fun heq => hheader (heq ▸ h.header_root)
    exact .inr ⟨h.left_le id hid, (h.left id hid).resolve_left hne⟩

section Sweep

variable
  (hround : ∀ column cell, IsCell m column cell → ∃ l, Round m horizontal cell l)
  (hchange : ∀ links, OneWay m links → ∀ column cell, IsCell m column cell →
    Safe m.numColumns (OneWay m) (change links cell))
  (happroach : Approaches m vertical (column + 1) (IsCell m column) rank)
include hround hchange

theorem OneWay.sweepRow_safe (h : OneWay m links) (hcell : IsCell m column cell) (changed : Nat) :
    Safe m.numColumns (fun result => OneWay m result.1)
      (sweepRow horizontal change cell links.size (horizontal (links.get cell)) changed links) := by
  obtain ⟨l, hl⟩ := hround column cell hcell
  have hstep : ∀ links, OneWay m links → ∀ other ∈ l,
      Safe m.numColumns (OneWay m) (change links other) := by
    intro links h other hother
    obtain ⟨column, hcell⟩ := hl.isCell other (List.mem_cons_of_mem cell hother)
    exact hchange links h column other hcell
  have hlt : ∀ links, OneWay m links → ∀ other ∈ l, other < links.size :=
    fun links h other hother => hl.lt h.toLaid other (List.mem_cons_of_mem cell hother)
  rw [sweepRow_eq (P := OneWay m) (fun links h other hother _ => (hstep links h other hother).of_ok)
    (fun links h => hl.leads links h.toLaid) hlt (List.nodup_cons.1 hl.nodup).1 h
    (length_le_of_forall_lt hl.nodup.of_cons (hlt links h))]
  exact (foldlM_safe hstep h).bind fun _ h' => h'

include happroach

/-- A sweep of a column comes to its end, from the bottom or from the top. -/
theorem OneWay.sweepColumn_safe (h : OneWay m links)
    (hcell : Within (column + 1) (IsCell m column) rank steps cell) (changed : Nat) :
    Safe m.numColumns (fun result => OneWay m result.1)
      (sweepColumn vertical horizontal change (column + 1) steps cell changed links) := by
  -- The links change with every step, but the rank of the cell stays below the steps that are left.
  induction steps generalizing cell links changed with
  | zero =>
    rw [sweepColumn, if_pos hcell.eq_stop]
    exact h
  | succ steps ih =>
    rw [sweepColumn]
    split
    case isTrue => exact h
    case isFalse hne =>
      have hnear := hcell.resolve_left hne
      rw [node_eq_ok (happroach.lt links h.toLaid cell hnear.1).1, ok_bind]
      refine (h.sweepRow_safe hround hchange hnear.1 changed).bind ?_
      rintro ⟨links', changed'⟩ h'
      have hheader : links'.header cell ≠ root :=
        (h'.lt_of_isCell hnear.1).2.2.2 ▸ Nat.succ_ne_zero column
      change Safe _ _ (links'.node cell >>= _)
      rw [node_eq_ok (happroach.lt links' h'.toLaid cell hnear.1).1, ok_bind]
      exact ih h' (happroach.within_next h' hnear hheader) changed'

end Sweep

namespace OneWay

variable (h : OneWay m links)
include h

theorem cover_safe (id : Nat) :
    Safe m.numColumns (fun result => OneWay m result.1 ∧ id ≠ root) (links.cover id) := by
  by_cases hid : id ≠ root ∧ id ≤ m.numColumns
  · obtain ⟨hne, hle⟩ := hid
    obtain ⟨column, rfl⟩ := Nat.exists_eq_succ_of_ne_zero hne
    have hhidden : OneWay m (links.hidden (column + 1)) := h.hidden hle hne
    rw [cover, h.isHeader_eq hle, hideHeader_eq h.closed (h.header_lt hle)]
    simp only [Bool.not_true, Bool.false_eq_true, if_false, ok_bind]
    rw [node_eq_ok (hhidden.header_lt hle), ok_bind]
    have happroach := approaches_down m column
    have hstart := happroach.within hhidden.toLaid (hhidden.down_header_cases hle)
    refine Safe.imp (hhidden.sweepColumn_safe (fun _ _ => exists_round_right)
      (fun _ h _ _ => h.unlink_safe) happroach hstart 1) ?_
    exact fun _ h => ⟨h, hne⟩
  · have hheader : links.isHeader id = false := Bool.eq_false_iff.2 (mt h.isHeader_iff.1 hid)
    rw [cover, hheader]
    exact hid

theorem uncover_safe (id : Nat) :
    Safe m.numColumns (fun links' => OneWay m links' ∧ id ≠ root) (links.uncover id) := by
  by_cases hid : id ≠ root ∧ id ≤ m.numColumns
  · obtain ⟨hne, hle⟩ := hid
    obtain ⟨column, rfl⟩ := Nat.exists_eq_succ_of_ne_zero hne
    rw [uncover, h.isHeader_eq hle]
    simp only [Bool.not_true, Bool.false_eq_true, if_false]
    rw [node_eq_ok (h.header_lt hle), ok_bind]
    have happroach := approaches_up m column
    have hstart := happroach.within h.toLaid (h.up_header_cases hle)
    refine Safe.bind (h.sweepColumn_safe (fun _ _ => exists_round_left)
      (fun _ h _ _ => h.relink_safe) happroach hstart 0) ?_
    rintro ⟨swept, changed⟩ hswept
    change Safe _ _ (swept.showHeader (column + 1))
    rw [showHeader_eq hswept.closed (hswept.header_lt hle)]
    exact ⟨hswept.shown hle, hne⟩
  · have hheader : links.isHeader id = false := Bool.eq_false_iff.2 (mt h.isHeader_iff.1 hid)
    rw [uncover, hheader]
    exact hid

end OneWay

section Row

theorem OneWay.coverFrom_safe (happroach : Approaches m Node.right stop S rank) (h : OneWay m links)
    (hid : Within stop S rank steps id) :
    Safe m.numColumns (fun result => OneWay m result.1) (coverFrom stop steps id links) := by
  induction steps generalizing id links with
  | zero =>
    rw [coverFrom, if_pos hid.eq_stop]
    exact h
  | succ steps ih =>
    rw [coverFrom]
    split
    case isTrue => exact h
    case isFalse hne =>
      have hnear := hid.resolve_left hne
      rw [node_eq_ok (happroach.lt links h.toLaid id hnear.1).1, ok_bind]
      refine (h.cover_safe (links.header id)).bind ?_
      rintro ⟨links', updates⟩ ⟨h', hheader⟩
      rw [← (h.tags_same h'.toLaid id).1] at hheader
      change Safe _ _ (links'.node id >>= _)
      rw [node_eq_ok (happroach.lt links' h'.toLaid id hnear.1).1, ok_bind]
      exact (ih h' (happroach.within_next h' hnear hheader)).bind fun _ h => h

theorem OneWay.uncoverFrom_safe (happroach : Approaches m Node.left stop S rank) (h : OneWay m links)
    (hid : Within stop S rank steps id) :
    Safe m.numColumns (OneWay m) (uncoverFrom stop steps id links) := by
  induction steps generalizing id links with
  | zero =>
    rw [uncoverFrom, if_pos hid.eq_stop]
    exact h
  | succ steps ih =>
    rw [uncoverFrom]
    split
    case isTrue => exact h
    case isFalse hne =>
      have hnear := hid.resolve_left hne
      rw [node_eq_ok (happroach.lt links h.toLaid id hnear.1).1, ok_bind]
      refine (h.uncover_safe (links.header id)).bind ?_
      rintro links' ⟨h', hheader⟩
      rw [← (h.tags_same h'.toLaid id).1] at hheader
      rw [node_eq_ok (happroach.lt links' h'.toLaid id hnear.1).1, ok_bind]
      exact ih h' (happroach.within_next h' hnear hheader)

variable (h : OneWay m links) (hid : id < links.size)
include h hid

/-- Headers and the root are walked through the header list, cells through their rows. -/
theorem OneWay.coverRow_safe :
    Safe m.numColumns (fun result => OneWay m result.1) (links.coverRow id) := by
  rw [coverRow, node_eq_ok hid, ok_bind]
  by_cases hle : id ≤ m.numColumns
  · have happroach := approaches_right m id
    exact h.coverFrom_safe happroach (happroach.within h.toLaid (.inr (h.right_le id hle)))
  · obtain ⟨column, hcell⟩ := h.exists_isCell (Nat.lt_of_not_le hle) hid
    obtain ⟨l, hround⟩ := exists_round_right hcell
    exact h.coverFrom_safe hround.approaches (hround.approaches.within h.toLaid (hround.start h.toLaid))

theorem OneWay.uncoverRow_safe : Safe m.numColumns (OneWay m) (links.uncoverRow id) := by
  rw [uncoverRow, node_eq_ok hid, ok_bind]
  by_cases hle : id ≤ m.numColumns
  · have happroach := approaches_left m id
    exact h.uncoverFrom_safe happroach (happroach.within h.toLaid (.inr (h.left_le id hle)))
  · obtain ⟨column, hcell⟩ := h.exists_isCell (Nat.lt_of_not_le hle) hid
    obtain ⟨l, hround⟩ := exists_round_left hcell
    exact h.uncoverFrom_safe hround.approaches (hround.approaches.within h.toLaid (hround.start h.toLaid))

end Row

/-- One move: it comes to its end and leaves the links leading one way, or it is a misuse. -/
theorem OneWay.move_safe (h : OneWay m links) {move : Move} (hnode : move.node < links.size) :
    Safe m.numColumns (fun result => OneWay m result.1) (links.move move) := by
  cases move with
  | cover id => exact (h.cover_safe id).bind fun _ h => h.1
  | uncover id => exact (h.uncover_safe id).bind fun _ h => h.1
  | coverRow id => exact (h.coverRow_safe hnode).bind fun _ h => h
  | uncoverRow id => exact (h.uncoverRow_safe hnode).bind fun _ h => h

end Links

end ExactCover
