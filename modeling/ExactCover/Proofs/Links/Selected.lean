import ExactCover.Proofs.Links.Covered
/-!
Covering a row covers the other columns that it meets, one after the other, and is taken back by the
uncover of the same row. No cover changes the row, so both ways meet all of its cells.
-/

namespace ExactCover

namespace Links

variable {m : Matrix} {links : Links} {covered columns : List Nat} {column start stop : Nat}
  {live : LiveRow}

/-- A part of a row, from behind `start` up to `stop`, whatever is covered. -/
structure Trail (m : Matrix) (live : LiveRow) (start stop : Nat) (columns : List Nat) : Prop where
  ones : ∀ column ∈ columns, column ∈ live.ones
  nodup : columns.Nodup
  ne : ∀ column ∈ columns, m.place column live ≠ stop
  leads : ∀ links, Laid m links →
    Leads links.right start (columns.map fun column => m.place column live) stop
  left_right : ∀ links, Laid m links →
    ∀ id ∈ start :: columns.map (fun column => m.place column live), links.left (links.right id) = id

theorem Trail.tail (h : Trail m live start stop (column :: columns)) :
    Trail m live (m.place column live) stop columns where
  ones := fun c hc => h.ones c (List.mem_cons_of_mem column hc)
  nodup := h.nodup.of_cons
  ne := fun c hc => h.ne c (List.mem_cons_of_mem column hc)
  leads := fun links hlaid => (h.leads links hlaid).2
  left_right := fun links hlaid id hid => h.left_right links hlaid id (List.mem_cons_of_mem start hid)

theorem trail_others (hlive : live ∈ liveRows m.rows) (hcolumn : column ∈ live.ones) :
    Trail m live (m.place column live) (m.place column live) (Remainder.others live column) where
  ones := fun _ hc => (Remainder.mem_others.1 hc).1
  nodup := Remainder.nodup_others (Matrix.ascending_of_mem hlive)
  ne := fun _ hc heq =>
    (Remainder.mem_others.1 hc).2
      (Matrix.place_inj hlive (Remainder.mem_others.1 hc).1 hlive hcolumn heq).2
  leads := fun _ hlaid => (hlaid.row_loop hlive hcolumn).leads
  left_right := fun _ hlaid => (hlaid.row_loop hlive hcolumn).prev_next

/-- Covering along a part of a row, and the way back, which ends behind that part with all the steps
left that it does not need itself. -/
theorem Covered.coverFrom (h : Covered m covered links) (hlive : live ∈ liveRows m.rows)
    (htrail : Trail m live start stop columns) (hfresh : ∀ column ∈ columns, column ∉ covered)
    {steps : Nat} (hsteps : columns.length ≤ steps) :
    ∃ links', coverFrom stop steps (links.right start) links =
        .ok (links', (m.remainder covered).costAll columns) ∧
      Covered m (covered ++ columns) links' ∧
      ∀ more, uncoverFrom stop (columns.length + more) (links'.left stop) links' =
        uncoverFrom stop more start links := by
  induction columns generalizing covered links start steps with
  | nil =>
    have hend : links.right start = stop := htrail.leads links h.toLaid
    have hback : links.left stop = start :=
      hend ▸ htrail.left_right links h.toLaid start List.mem_cons_self
    refine ⟨links, ?_, (List.append_nil covered).symm ▸ h, ?_⟩
    · rw [hend]
      cases steps <;> simp [Links.coverFrom, Remainder.costAll]
    · intro more
      rw [hback, List.length_nil, Nat.zero_add]
  | cons column columns ih =>
    have hones : column ∈ live.ones := htrail.ones column List.mem_cons_self
    have hne : m.place column live ≠ stop := htrail.ne column List.mem_cons_self
    have hfirst : links.right start = m.place column live := (htrail.leads links h.toLaid).1
    have hback : links.left (m.place column live) = start :=
      hfirst ▸ htrail.left_right links h.toLaid start List.mem_cons_self
    obtain ⟨next, hcover, hnext, huncover⟩ :=
      h.cover (Matrix.bounded_of_mem hlive hones) (hfresh column List.mem_cons_self)
    cases steps with
    | zero => simp at hsteps
    | succ steps =>
      obtain ⟨links', hrest, hcovered, hreturn⟩ :=
        ih hnext htrail.tail (fresh_concat htrail.nodup hfresh) (Nat.le_of_succ_le_succ hsteps)
      rw [List.append_assoc, List.singleton_append] at hcovered
      refine ⟨links', ?_, hcovered, ?_⟩
      · rw [hfirst, Links.coverFrom, if_neg hne, node_eq_ok (h.place_lt hlive hones), ok_bind]
        rw [show (links.get (m.place column live)).column = column + 1 from
          h.header_place hlive hones, hcover]
        simp only [ok_bind]
        rw [node_eq_ok (hnext.place_lt hlive hones), ok_bind]
        rw [show (next.get (m.place column live)).right = next.right (m.place column live) from rfl,
          hrest]
        simp only [ok_bind, pure, Except.pure]
        rw [Remainder.costAll, Matrix.remainder_strike]
      -- The way back meets this column last, after it has undone all that came later.
      · intro more
        rw [List.length_cons, Nat.add_assoc, Nat.add_comm 1 more, hreturn, Links.uncoverFrom,
          if_neg hne, node_eq_ok (hnext.place_lt hlive hones), ok_bind]
        rw [show (next.get (m.place column live)).column = column + 1 from
          hnext.header_place hlive hones, huncover, ok_bind, node_eq_ok (h.place_lt hlive hones),
          ok_bind]
        rw [show (links.get (m.place column live)).left = start from hback]

/-- A row whose other columns are not covered can be covered, at the cost of striking them out, and
its uncover gives the links back as they were. -/
theorem Covered.coverRow (h : Covered m covered links) (hlive : live ∈ liveRows m.rows)
    (hcolumn : column ∈ live.ones)
    (hfresh : ∀ other ∈ Remainder.others live column, other ∉ covered) :
    ∃ links', links.coverRow (m.place column live) =
        .ok (links', (m.remainder covered).costAll (Remainder.others live column)) ∧
      Covered m (covered ++ Remainder.others live column) links' ∧
      links'.uncoverRow (m.place column live) = .ok links := by
  have hplace := h.place_lt hlive hcolumn
  have hlength : (Remainder.others live column).length ≤ links.size := by
    have hnodup := (h.row_loop hlive hcolumn).nodup.of_cons
    simpa [Matrix.beside] using length_le_of_forall_lt hnodup (h.beside_lt hlive)
  obtain ⟨links', hcover, hcovered, hreturn⟩ :=
    h.coverFrom hlive (trail_others hlive hcolumn) hfresh hlength
  have hsize : links'.size = links.size := by
    rw [hcovered.frame.size_eq, h.frame.size_eq, hcovered.numColumns_eq, h.numColumns_eq]
  refine ⟨links', ?_, hcovered, ?_⟩
  · rw [Links.coverRow, node_eq_ok hplace, ok_bind]
    exact hcover
  · rw [uncoverRow, node_eq_ok (hcovered.place_lt hlive hcolumn), ok_bind]
    obtain ⟨more, hmore⟩ := Nat.exists_eq_add_of_le hlength
    rw [hsize, hmore]
    refine (hreturn more).trans ?_
    cases more <;> simp [uncoverFrom]

end Links

end ExactCover
