import ExactCover.Proofs.Search.Plain
/-!
The plain search finds an exact cover of what is left of a matrix when there is one. Every exact
cover has exactly one row in the column that is picked, so it is lost with none of the other rows.
-/

namespace ExactCover

namespace Remainder

/-- Distinct live rows of which exactly one sets each active column. -/
structure IsExactCover (p : Remainder) (lives : List LiveRow) : Prop where
  nodup : lives.Nodup
  mem_rows : ∀ live ∈ lives, live ∈ p.rows
  exists_unique : ∀ column ∈ p.columns,
    ∃ live ∈ lives, column ∈ live.ones ∧ ∀ other ∈ lives, column ∈ other.ones → other = live

/-- What a search may answer: the rows of an exact cover, all of them with a set column, or that
there is none. -/
inductive Answers (p : Remainder) : Option (List Nat) → Prop
  | found {lives : List LiveRow} (h : p.IsExactCover lives) (hones : ∀ live ∈ lives, live.ones ≠ []) :
      Answers p (some (lives.map LiveRow.row))
  | failed (h : ∀ lives, ¬ p.IsExactCover lives) : Answers p none

/-- Trying rows finds what the first successful one finds, after all rows before it have failed, and
fails if all of them fail. -/
theorem tryRows_cases {descend : LiveRow → Stats → Stats × Option (List Nat)}
    {P : LiveRow → Option (List Nat) → Prop} {lives : List LiveRow}
    (hdescend : ∀ live ∈ lives, ∀ stats, P live (descend live stats).2) (stats : Stats) :
    (∃ before live after rows, lives = before ++ live :: after ∧
      (tryRows descend lives stats).2 = some (live.row :: rows) ∧
      P live (some rows) ∧ ∀ l ∈ before, P l none) ∨
    ((tryRows descend lives stats).2 = none ∧ ∀ live ∈ lives, P live none) := by
  induction lives generalizing stats with
  | nil => exact .inr ⟨rfl, fun _ hmem => absurd hmem List.not_mem_nil⟩
  | cons live lives ih =>
    have hfirst := hdescend live List.mem_cons_self stats
    rw [tryRows]
    generalize descend live stats = result at hfirst
    obtain ⟨stats, found⟩ := result
    cases found with
    | some rows => exact .inl ⟨[], live, lives, rows, rfl, rfl, hfirst, List.forall_mem_nil _⟩
    | none =>
      rcases ih (fun l hl => hdescend l (List.mem_cons_of_mem live hl)) stats.backtrack with
        ⟨before, other, after, rows, rfl, heq, hrows, hbefore⟩ | ⟨heq, hall⟩
      · exact .inl ⟨live :: before, other, after, rows, rfl, heq, hrows,
          List.forall_mem_cons.2 ⟨hfirst, hbefore⟩⟩
      · exact .inr ⟨heq, List.forall_mem_cons.2 ⟨hfirst, hall⟩⟩

/-- No live row sets a column that is not active. -/
def Bounded (p : Remainder) : Prop := ∀ live ∈ p.rows, live.ones ⊆ p.columns

variable {p : Remainder} {column : Nat} {live : LiveRow} {lives : List LiveRow}

theorem Bounded.select (h : p.Bounded) (live : LiveRow) : (p.select live).Bounded := by
  intro other hother c hc
  obtain ⟨hmem, hdisjoint⟩ := mem_rows_select.1 hother
  exact mem_columns_select.2 ⟨h other hmem hc, fun hlive => hdisjoint c hlive hc⟩

/-- A row that sets an active column completes every exact cover of what it leaves. -/
theorem isExactCover_cons (hlive : live ∈ p.candidates column)
    (h : (p.select live).IsExactCover lives) : p.IsExactCover (live :: lives) := by
  obtain ⟨hmem, hcolumn⟩ := mem_candidates.1 hlive
  have hrows : ∀ l ∈ lives, l ∈ p.rows ∧ ∀ c ∈ live.ones, c ∉ l.ones :=
    fun l hl => mem_rows_select.1 (h.mem_rows l hl)
  refine ⟨List.nodup_cons.2 ⟨fun hin => (hrows live hin).2 column hcolumn hcolumn, h.nodup⟩, ?_, ?_⟩
  · intro l hl
    rcases List.mem_cons.1 hl with rfl | hl
    · exact hmem
    · exact (hrows l hl).1
  · intro c hc
    by_cases hones : c ∈ live.ones
    · refine ⟨live, List.mem_cons_self, hones, fun other hother hset => ?_⟩
      rcases List.mem_cons.1 hother with rfl | hother
      · rfl
      · exact absurd hset ((hrows other hother).2 c hones)
    · obtain ⟨row, hrow, hset, hunique⟩ := h.exists_unique c (mem_columns_select.2 ⟨hc, hones⟩)
      refine ⟨row, List.mem_cons_of_mem live hrow, hset, fun other hother hset' => ?_⟩
      rcases List.mem_cons.1 hother with rfl | hother
      · exact absurd hset' hones
      · exact hunique other hother hset'

/-- Without a row of its own, an exact cover is one of what that row leaves. -/
theorem isExactCover_filter (hbounded : p.Bounded) (hlive : live ∈ lives) (h : p.IsExactCover lives) :
    (p.select live).IsExactCover (lives.filter (· ≠ live)) := by
  refine ⟨h.nodup.filter _, ?_, ?_⟩
  · intro other hother
    obtain ⟨hother, hne⟩ := List.mem_filter.1 hother
    refine mem_rows_select.2 ⟨h.mem_rows other hother, fun c hc hset => ?_⟩
    obtain ⟨row, -, -, hunique⟩ := h.exists_unique c (hbounded live (h.mem_rows live hlive) hc)
    have hsame : other = live := (hunique other hother hset).trans (hunique live hlive hc).symm
    exact of_decide_eq_true hne hsame
  · intro c hc
    obtain ⟨hactive, hones⟩ := mem_columns_select.1 hc
    obtain ⟨row, hrow, hset, hunique⟩ := h.exists_unique c hactive
    refine ⟨row, List.mem_filter.2 ⟨hrow, decide_eq_true ?_⟩, hset, fun other hother =>
      hunique other (List.mem_of_mem_filter hother)⟩
    rintro rfl
    exact hones hset

/-- The picked column has to be set in some row, so every exact cover contains a candidate. -/
theorem IsExactCover.exists_candidate (h : p.IsExactCover lives) {selector : Selector}
    (hpick : p.pick selector = some column) : ∃ live ∈ lives, live ∈ p.candidates column := by
  obtain ⟨live, hlive, hset, -⟩ := h.exists_unique column (pick_mem hpick)
  exact ⟨live, hlive, mem_candidates.2 ⟨h.mem_rows live hlive, hset⟩⟩

theorem answers_solved {selector : Selector} (hpick : p.pick selector = none) :
    p.Answers (some []) := by
  have hcolumns := columns_eq_nil hpick
  have hnil : p.IsExactCover [] := ⟨List.nodup_nil, by simp, by simp [hcolumns]⟩
  exact .found hnil (by simp)

theorem answers_deadEnd {selector : Selector} (hpick : p.pick selector = some column)
    (hnone : p.candidates column = []) : p.Answers none := by
  refine .failed fun lives h => ?_
  obtain ⟨live, -, hlive⟩ := h.exists_candidate hpick
  rw [hnone] at hlive
  cases hlive

/-- Trying all candidates of the picked column answers, if each search below them does. -/
theorem answers_tryRows {selector : Selector} (hbounded : p.Bounded)
    (hpick : p.pick selector = some column) {descend : LiveRow → Stats → Stats × Option (List Nat)}
    (hdescend : ∀ live ∈ p.candidates column, ∀ stats,
      (p.select live).Answers (descend live stats).2) (stats : Stats) :
    p.Answers (tryRows descend (p.candidates column) stats).2 := by
  rcases tryRows_cases hdescend stats with
    ⟨before, live, after, rows, hsplit, heq, hanswer, -⟩ | ⟨heq, hnone⟩
  · have hlive : live ∈ p.candidates column :=
      hsplit ▸ List.mem_append_right before List.mem_cons_self
    rw [heq]
    cases hanswer with
    | found h hones =>
      refine .found (isExactCover_cons hlive h) fun l hl => ?_
      rcases List.mem_cons.1 hl with rfl | hl
      · exact List.ne_nil_of_mem (mem_candidates.1 hlive).2
      · exact hones l hl
  · rw [heq]
    refine .failed fun lives h => ?_
    obtain ⟨live, hmem, hlive⟩ := h.exists_candidate hpick
    cases hnone live hlive with
    | failed hnot => exact hnot _ (isExactCover_filter hbounded hmem h)

/-- The plain search is sound and complete. -/
theorem search_answers (selector : Selector) (hbounded : p.Bounded) {levels : Nat}
    (hlevels : p.columns.length < levels) (depth : Nat) (stats : Stats) :
    p.Answers (search selector levels depth p stats).2 := by
  refine search_induction (motive := fun p _ _ result => p.Bounded → p.Answers result.2)
    ?solved ?deadEnd ?branch hlevels hbounded
  case solved =>
    intro p _ _ hpick _
    exact answers_solved hpick
  case deadEnd =>
    intro p _ _ _ hpick hnone _
    exact answers_deadEnd hpick hnone
  case branch =>
    intro p _ column stats descend hpick _ hdescend hbounded
    refine answers_tryRows hbounded hpick (fun live hlive stats => ?_) _
    obtain ⟨updates, hanswers⟩ := hdescend live hlive stats
    exact hanswers (hbounded.select live)

end Remainder

end ExactCover
