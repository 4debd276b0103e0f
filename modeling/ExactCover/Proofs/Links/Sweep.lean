import Mathlib.Data.List.Perm.Subperm
import Mathlib.Data.List.Nodup
import ExactCover.Proofs.Links.Access
import ExactCover.Proofs.Loop
/-!
A sweep follows the links while it changes them. Where no change touches the links that the sweep
has still to follow, it meets the nodes that were there at the start, in their order.
-/

namespace ExactCover

theorem foldlM_keeps {σ α ε : Type} {step : σ → α → Except ε σ} {P : σ → Prop} {l : List α}
    (hstep : ∀ s, P s → ∀ a ∈ l, ∀ s', step s a = .ok s' → P s') {s s' : σ} (hs : P s)
    (h : l.foldlM step s = .ok s') : P s' := by
  induction l generalizing s with
  | nil =>
    cases h
    exact hs
  | cons a l ih =>
    rw [List.foldlM_cons, bind_eq_ok_iff] at h
    obtain ⟨s₁, hfirst, hrest⟩ := h
    have hs₁ : P s₁ := hstep s hs a List.mem_cons_self s₁ hfirst
    exact ih (fun t ht b hb => hstep t ht b (List.mem_cons_of_mem a hb)) hs₁ hrest

theorem length_le_of_forall_lt {l : List Nat} {n : Nat} (hnodup : l.Nodup) (hlt : ∀ x ∈ l, x < n) :
    l.length ≤ n := by
  have hsub : l ⊆ List.range n := fun x hx => List.mem_range.2 (hlt x hx)
  simpa using (List.subperm_of_subset hnodup hsub).length_le

namespace Links

variable {α : Type} {vertical horizontal : Node → Nat} {change : Links → Nat → Except Fault Links}
  {P : Links → Prop} {links : Links} {place : α → Nat} {cells : α → List Nat} {column above : Nat}

theorem sweepRow_eq {start row : Nat} {l : List Nat}
    (hstep : ∀ links, P links → ∀ cell ∈ l, ∀ links', change links cell = .ok links' → P links')
    (hleads : ∀ links, P links → Leads (fun id => horizontal (links.get id)) start l row)
    (hlt : ∀ links, P links → ∀ cell ∈ l, cell < links.size) (hne : row ∉ l)
    (hP : P links) {steps : Nat} (hsteps : l.length ≤ steps) (changed : Nat) :
    sweepRow horizontal change row steps (horizontal (links.get start)) changed links =
      (l.foldlM change links >>= fun links' => .ok (links', changed + l.length)) := by
  induction l generalizing start links steps changed with
  | nil =>
    have hend : horizontal (links.get start) = row := hleads links hP
    rw [hend]
    cases steps <;> simp [sweepRow, ok_bind, pure, Except.pure]
  | cons cell l ih =>
    have hfirst : horizontal (links.get start) = cell := (hleads links hP).1
    have hcell : cell ≠ row := fun h => hne (h ▸ List.mem_cons_self)
    cases steps with
    | zero => simp at hsteps
    | succ steps =>
      rw [hfirst, sweepRow, if_neg hcell, List.foldlM_cons, bind_assoc]
      cases hchange : change links cell with
      | error fault => rfl
      | ok links' =>
        have hP' : P links' := hstep links hP cell List.mem_cons_self links' hchange
        have hcell' : cell < links'.size := hlt links' hP' cell List.mem_cons_self
        rw [ok_bind, ok_bind, node_eq_ok hcell', ok_bind]
        rw [ih (fun s hs c hc => hstep s hs c (List.mem_cons_of_mem cell hc))
          (fun s hs => (hleads s hs).2)
          (fun s hs c hc => hlt s hs c (List.mem_cons_of_mem cell hc))
          (fun hmem => hne (List.mem_cons_of_mem cell hmem)) hP' (by simpa using hsteps)]
        rw [List.length_cons, Nat.add_right_comm, Nat.add_assoc]

/-- The nodes that a sweep of a column is to meet: the places of the rows below `above` and, for
each row, its other cells. -/
structure Course (vertical horizontal : Node → Nat) (place : α → Nat) (cells : α → List Nat)
    (column above : Nat) (rows : List α) (links : Links) : Prop where
  leads : Leads (fun id => vertical (links.get id)) above (rows.map place) column
  row_ne : ∀ row ∈ rows, place row ≠ column
  row_lt : ∀ row ∈ rows, place row < links.size
  row_leads : ∀ row ∈ rows,
    Leads (fun id => horizontal (links.get id)) (place row) (cells row) (place row)
  row_nodup : ∀ row ∈ rows, (place row :: cells row).Nodup
  cell_lt : ∀ row ∈ rows, ∀ cell ∈ cells row, cell < links.size

theorem Course.tail {row : α} {rows : List α}
    (h : Course vertical horizontal place cells column above (row :: rows) links) :
    Course vertical horizontal place cells column (place row) rows links where
  leads := h.leads.2
  row_ne := fun r hr => h.row_ne r (List.mem_cons_of_mem row hr)
  row_lt := fun r hr => h.row_lt r (List.mem_cons_of_mem row hr)
  row_leads := fun r hr => h.row_leads r (List.mem_cons_of_mem row hr)
  row_nodup := fun r hr => h.row_nodup r (List.mem_cons_of_mem row hr)
  cell_lt := fun r hr => h.cell_lt r (List.mem_cons_of_mem row hr)

/-- A sweep whose changes keep its course makes them one after the other. -/
theorem sweepColumn_eq {rows : List α}
    (hstep : ∀ links, P links → ∀ cell ∈ rows.flatMap cells, ∀ links',
      change links cell = .ok links' → P links')
    (hcourse : ∀ links, P links →
      Course vertical horizontal place cells column above rows links)
    (hP : P links) {steps : Nat} (hsteps : rows.length ≤ steps) (changed : Nat) :
    sweepColumn vertical horizontal change column steps (vertical (links.get above)) changed links =
      ((rows.flatMap cells).foldlM change links >>= fun links' =>
        .ok (links', changed + (rows.flatMap cells).length)) := by
  induction rows generalizing above links steps changed with
  | nil =>
    have hend : vertical (links.get above) = column := (hcourse links hP).leads
    rw [hend]
    cases steps <;> simp [sweepColumn, ok_bind, pure, Except.pure]
  | cons row rows ih =>
    have hmem : row ∈ row :: rows := List.mem_cons_self
    have hfirst : vertical (links.get above) = place row := (hcourse links hP).leads.1
    have hrow : place row ≠ column := (hcourse links hP).row_ne row hmem
    have hnodup := List.nodup_cons.1 ((hcourse links hP).row_nodup row hmem)
    have hlength : (cells row).length ≤ links.size :=
      length_le_of_forall_lt hnodup.2 ((hcourse links hP).cell_lt row hmem)
    have hstepRow : ∀ links, P links → ∀ cell ∈ cells row, ∀ links',
        change links cell = .ok links' → P links' := by
      intro s hs cell hcell
      exact hstep s hs cell (List.mem_flatMap.2 ⟨row, hmem, hcell⟩)
    have hstepRest : ∀ links, P links → ∀ cell ∈ rows.flatMap cells, ∀ links',
        change links cell = .ok links' → P links' := by
      intro s hs cell hcell
      obtain ⟨r, hr, hc⟩ := List.mem_flatMap.1 hcell
      exact hstep s hs cell (List.mem_flatMap.2 ⟨r, List.mem_cons_of_mem row hr, hc⟩)
    cases steps with
    | zero => simp at hsteps
    | succ steps =>
      rw [hfirst, sweepColumn, if_neg hrow, node_eq_ok ((hcourse links hP).row_lt row hmem),
        ok_bind]
      rw [sweepRow_eq hstepRow (fun s hs => (hcourse s hs).row_leads row hmem)
        (fun s hs => (hcourse s hs).cell_lt row hmem) hnodup.1 hP hlength]
      rw [List.flatMap_cons, List.foldlM_append, bind_assoc, bind_assoc]
      cases hfold : (cells row).foldlM change links with
      | error fault => rfl
      | ok links' =>
        -- The changes of this row have kept the course, so the rest of it can still be followed.
        have hP' : P links' := foldlM_keeps hstepRow hP hfold
        simp only [ok_bind]
        rw [node_eq_ok ((hcourse links' hP').row_lt row hmem), ok_bind]
        rw [ih hstepRest (fun s hs => (hcourse s hs).tail) hP' (by simpa using hsteps)]
        rw [List.length_append, Nat.add_assoc]

end Links

end ExactCover
