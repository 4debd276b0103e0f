import ExactCover.Proofs.Search.Entered
/-!
Partial solutions that no exact cover contains. An exact cover that contains the selected rows has
to set each column that they leave active, and it can do so only in a row that they leave live. So a
partial solution is refuted as soon as it is with every candidate of one active column.
-/

namespace ExactCover

/-- No exact cover of the matrix contains all of the rows. -/
def Matrix.Refuted (m : Matrix) (rows : List Nat) : Prop :=
  ∀ cover, m.IsExactCover cover → ¬ rows ⊆ cover

/-- The columns that selected rows have struck out; the row that was selected last comes first. -/
def struckBy : List Selection → List Nat
  | [] => []
  | pick :: picks => struckBy picks ++ pick.column :: Remainder.others pick.live pick.column

variable {m : Matrix} {picks : List Selection} {column : Nat} {cover : List Nat}

theorem mem_struckBy (hpicks : ∀ pick ∈ picks, pick.column ∈ pick.live.ones) :
    column ∈ struckBy picks ↔ ∃ pick ∈ picks, column ∈ pick.live.ones := by
  induction picks with
  | nil => simp [struckBy]
  | cons pick picks ih =>
    obtain ⟨hpick, hpicks⟩ := List.forall_mem_cons.1 hpicks
    have hhere : column ∈ pick.column :: Remainder.others pick.live pick.column ↔
        column ∈ pick.live.ones := by
      rw [List.mem_cons, Remainder.mem_others]
      constructor
      · rintro (rfl | ⟨hmem, -⟩)
        · exact hpick
        · exact hmem
      · intro hmem
        by_cases heq : column = pick.column
        · exact .inl heq
        · exact .inr ⟨hmem, heq⟩
    rw [struckBy, List.mem_append, ih hpicks, hhere, List.exists_mem_cons_iff, or_comm]

section Selected

variable (hpicks : ∀ pick ∈ picks, pick.live ∈ liveRows m.rows ∧ pick.column ∈ pick.live.ones)
include hpicks

/-- An exact cover that contains the selected rows sets each active column in one of its
candidates. -/
theorem Matrix.IsExactCover.exists_candidate_row (h : m.IsExactCover cover)
    (hrows : Remainder.selectedRows picks ⊆ cover)
    (hcolumn : column ∈ (m.remainder (struckBy picks)).columns) :
    ∃ live ∈ (m.remainder (struckBy picks)).candidates column, live.row ∈ cover := by
  have hstruck : ∀ c, c ∈ struckBy picks ↔ ∃ pick ∈ picks, c ∈ pick.live.ones :=
    fun _ => mem_struckBy fun pick hpick => (hpicks pick hpick).2
  obtain ⟨hlt, hfresh⟩ := mem_columns_remainder.1 hcolumn
  obtain ⟨row, hrow, hset, -⟩ := h.exists_unique column hlt
  have hlive := liveRow_mem_liveRows (h.lt_numRows row hrow)
  refine ⟨m.liveRow row, mem_candidates_remainder.2 ⟨hlive, ?_, mem_ones_liveRow.2 hset⟩, hrow⟩
  -- A row that shares a column with a selected one is that row, and all its columns are struck out.
  intro other hother hones
  obtain ⟨pick, hpick, hmem⟩ := (hstruck other).1 hother
  obtain ⟨hpicked, -⟩ := hpicks pick hpick
  obtain ⟨only, -, -, hunique⟩ := h.exists_unique other (bounded_of_mem hlive hones)
  have hsame : pick.live.row = row :=
    (hunique _ (hrows (List.mem_map_of_mem hpick)) ((isSet_row hpicked).2 hmem)).trans
      (hunique row hrow (mem_ones_liveRow.1 hones)).symm
  have hset' : column ∈ pick.live.ones := (isSet_row hpicked).1 (hsame ▸ hset)
  exact hfresh ((hstruck column).2 ⟨pick, hpick, hset'⟩)

/-- What is refuted with every candidate of an active column is refuted. -/
theorem Matrix.refuted_of_candidates
    (hcolumn : column ∈ (m.remainder (struckBy picks)).columns)
    (h : ∀ live ∈ (m.remainder (struckBy picks)).candidates column,
      m.Refuted (live.row :: Remainder.selectedRows picks)) :
    m.Refuted (Remainder.selectedRows picks) := by
  intro cover hcover hrows
  obtain ⟨live, hlive, hmem⟩ := hcover.exists_candidate_row hpicks hrows hcolumn
  exact h live hlive cover hcover (List.cons_subset.2 ⟨hmem, hrows⟩)

end Selected

end ExactCover
