import ExactCover.Proofs.Search.Correct
/-!
With the leftmost selector the search finds the first of all exact covers. The column that it picks
is the smallest active one, so the row that covers it comes first in every exact cover that is listed
by the rows' smallest columns, and trying the rows from top to bottom is going through these lists in
lexicographic order.
-/

namespace ExactCover

/-- The smallest set column of the first row is smaller than all set columns of the second one. -/
def LiveRow.StartsBefore (live other : LiveRow) : Prop :=
  ∃ column ∈ live.ones, ∀ c ∈ other.ones, column < c

/-- One list of row numbers is the other, or comes before it in lexicographic order. -/
def NoLater (rows others : List Nat) : Prop := rows = others ∨ List.Lex (· < ·) rows others

theorem NoLater.cons {rows others : List Nat} (row : Nat) (h : NoLater rows others) :
    NoLater (row :: rows) (row :: others) := by
  rcases h with rfl | h
  · exact .inl rfl
  · exact .inr (.cons h)

namespace Remainder

/-- Columns and rows in ascending order, and no row that sets a column that is not active. -/
structure Ordered (p : Remainder) : Prop where
  columns : p.columns.Pairwise (· < ·)
  rows : p.rows.Pairwise fun live other => live.row < other.row
  bounded : p.Bounded

/-- An exact cover without empty rows, in the order of the rows' smallest columns. -/
structure IsListedCover (p : Remainder) (lives : List LiveRow) : Prop extends p.IsExactCover lives where
  ones_ne_nil : ∀ live ∈ lives, live.ones ≠ []
  pairwise : lives.Pairwise LiveRow.StartsBefore

/-- The first of all these listed covers, by the rows' numbers. -/
structure IsFirstCover (p : Remainder) (lives : List LiveRow) : Prop extends p.IsListedCover lives where
  noLater : ∀ others, p.IsListedCover others →
    NoLater (lives.map LiveRow.row) (others.map LiveRow.row)

variable {p : Remainder} {column levels depth : Nat} {live : LiveRow} {lives : List LiveRow}
  {stats : Stats}

theorem Ordered.select (h : p.Ordered) (live : LiveRow) : (p.select live).Ordered where
  columns := h.columns.filter _
  rows := h.rows.filter _
  bounded := h.bounded.select live

/-- The leftmost column is the smallest one. -/
theorem Ordered.le_of_mem (h : p.Ordered) (hpick : p.pick .leftmost = some column) {c : Nat}
    (hc : c ∈ p.columns) : column ≤ c := by
  obtain ⟨columns, hcolumns⟩ := List.head?_eq_some_iff.1 hpick
  have hascending := h.columns
  rw [hcolumns] at hc hascending
  rcases List.mem_cons.1 hc with rfl | hc
  · exact Nat.le_refl _
  · exact Nat.le_of_lt ((List.pairwise_cons.1 hascending).1 c hc)

section Pick

variable (h : p.Ordered) (hpick : p.pick .leftmost = some column)
include h hpick

theorem IsListedCover.exists_cons (hlives : p.IsListedCover lives) :
    ∃ live rest, lives = live :: rest ∧ live ∈ p.candidates column ∧
      (p.select live).IsListedCover rest := by
  obtain ⟨owner, howner, hset, -⟩ := hlives.exists_unique column (pick_mem hpick)
  cases lives with
  | nil => cases howner
  | cons live rest =>
    obtain ⟨hstarts, hpairwise⟩ := List.pairwise_cons.1 hlives.pairwise
    have hrows : ∀ l ∈ live :: rest, l ∈ p.rows := hlives.mem_rows
    have hset : column ∈ live.ones := by
      rcases List.mem_cons.1 howner with rfl | hrest
      · exact hset
      · obtain ⟨c, hc, hlt⟩ := hstarts owner hrest
        have hle := h.le_of_mem hpick (h.bounded live (hrows live List.mem_cons_self) hc)
        exact absurd (hlt column hset) (Nat.not_lt.2 hle)
    have hselect := isExactCover_filter h.bounded List.mem_cons_self hlives.toIsExactCover
    have hfilter : (live :: rest).filter (· ≠ live) = rest := by
      rw [List.filter_cons_of_neg (by simp), List.filter_eq_self]
      intro other hother
      have hne : other ≠ live := fun heq => (List.nodup_cons.1 hlives.nodup).1 (heq ▸ hother)
      exact decide_eq_true hne
    rw [hfilter] at hselect
    exact ⟨live, rest, rfl, mem_candidates.2 ⟨hrows live List.mem_cons_self, hset⟩, hselect,
      fun l hl => hlives.ones_ne_nil l (List.mem_cons_of_mem live hl), hpairwise⟩

theorem IsListedCover.cons (hlive : live ∈ p.candidates column)
    (hlives : (p.select live).IsListedCover lives) : p.IsListedCover (live :: lives) where
  toIsExactCover := isExactCover_cons hlive hlives.toIsExactCover
  ones_ne_nil := List.forall_mem_cons.2
    ⟨List.ne_nil_of_mem (mem_candidates.1 hlive).2, hlives.ones_ne_nil⟩
  pairwise := by
    have hset := (mem_candidates.1 hlive).2
    refine List.pairwise_cons.2 ⟨fun other hother => ⟨column, hset, fun c hc => ?_⟩, hlives.pairwise⟩
    obtain ⟨hrow, hdisjoint⟩ := mem_rows_select.1 (hlives.mem_rows other hother)
    have hne : c ≠ column := by
      rintro rfl
      exact hdisjoint c hset hc
    exact Nat.lt_of_le_of_ne (h.le_of_mem hpick (h.bounded other hrow hc)) hne.symm

/-- Where all candidates above a row fail, the first cover with that row is the first of all. -/
theorem IsFirstCover.cons {above below : List LiveRow}
    (hsplit : p.candidates column = above ++ live :: below)
    (habove : ∀ l ∈ above, (p.select l).Answers none)
    (hlives : (p.select live).IsFirstCover lives) : p.IsFirstCover (live :: lives) where
  toIsListedCover :=
    .cons h hpick (hsplit ▸ List.mem_append_right above List.mem_cons_self) hlives.toIsListedCover
  noLater := by
    intro others hothers
    obtain ⟨first, rest, rfl, hfirst, hrest⟩ := hothers.exists_cons h hpick
    have hascending : (p.candidates column).Pairwise fun live other => live.row < other.row :=
      h.rows.filter _
    rw [hsplit] at hfirst hascending
    rcases List.mem_append.1 hfirst with hfirst | hfirst
    · cases habove first hfirst with
      | failed hnone => exact absurd hrest.toIsExactCover (hnone rest)
    · rcases List.mem_cons.1 hfirst with rfl | hfirst
      · exact (hlives.noLater rest hrest).cons first.row
      · have hbelow := (List.pairwise_append.1 hascending).2.1
        exact .inr (.rel ((List.pairwise_cons.1 hbelow).1 first hfirst))

end Pick

/-- What a search with the leftmost selector may answer: the rows of the first cover, or that there is
none. -/
structure FindsFirst (p : Remainder) (found : Option (List Nat)) : Prop where
  answers : p.Answers found
  first : ∀ rows, found = some rows → ∃ lives, p.IsFirstCover lives ∧ lives.map LiveRow.row = rows

theorem isFirstCover_nil (hpick : p.pick .leftmost = none) : p.IsFirstCover [] where
  nodup := List.nodup_nil
  mem_rows := List.forall_mem_nil _
  exists_unique := by simp [columns_eq_nil hpick]
  ones_ne_nil := List.forall_mem_nil _
  pairwise := .nil
  noLater := by
    intro others _
    cases others with
    | nil => exact .inl rfl
    | cons other others => exact .inr .nil

/-- Trying all candidates of the leftmost column from top to bottom finds the first cover, if each
search below them does. -/
theorem findsFirst_tryRows (h : p.Ordered) (hpick : p.pick .leftmost = some column)
    {descend : LiveRow → Stats → Stats × Option (List Nat)}
    (hdescend : ∀ live ∈ p.candidates column, ∀ stats,
      (p.select live).FindsFirst (descend live stats).2) (stats : Stats) :
    p.FindsFirst (tryRows descend (p.candidates column) stats).2 where
  answers := answers_tryRows h.bounded hpick (fun l hl stats => (hdescend l hl stats).answers) stats
  first := by
    intro rows hrows
    rcases tryRows_cases hdescend stats with
      ⟨above, live, below, found, hsplit, heq, hfound, habove⟩ | ⟨heq, -⟩
    · rw [heq] at hrows
      cases hrows
      obtain ⟨lives, hlives, rfl⟩ := hfound.first found rfl
      exact ⟨live :: lives, .cons h hpick hsplit (fun l hl => (habove l hl).answers) hlives, rfl⟩
    · rw [heq] at hrows
      cases hrows

theorem search_leftmost (h : p.Ordered) (hlevels : p.columns.length < levels) :
    p.FindsFirst (search .leftmost levels depth p stats).2 := by
  refine search_induction (motive := fun p _ _ result => p.Ordered → p.FindsFirst result.2)
    ?solved ?deadEnd ?branch hlevels h
  case solved =>
    rintro p _ _ hpick _
    refine ⟨answers_solved hpick, ?_⟩
    rintro _ ⟨⟩
    exact ⟨[], isFirstCover_nil hpick, rfl⟩
  case deadEnd =>
    intro p _ _ _ hpick hnone _
    exact ⟨answers_deadEnd hpick hnone, fun rows hrows => absurd hrows.symm (Option.some_ne_none rows)⟩
  case branch =>
    intro p _ column _ descend hpick _ hdescend h
    refine findsFirst_tryRows h hpick (fun live hlive stats => ?_) _
    obtain ⟨updates, hfirst⟩ := hdescend live hlive stats
    exact hfirst (h.select live)

end Remainder

namespace Matrix

variable {m : Matrix} {row other column : Nat} {rows : List Nat}

theorem ordered_ofMatrix (m : Matrix) : (m.remainder []).Ordered where
  columns := List.pairwise_lt_range.filter _
  rows := by
    rw [rows_remainder]
    exact List.pairwise_map.2 (List.pairwise_lt_range.filter _)
  bounded := fun _ hlive => ones_subset_columns hlive

theorem isSet_firstColumn (h : m.isSet row column = true) :
    m.isSet row (m.firstColumn row) = true ∧ m.firstColumn row ≤ column := by
  have hfound : ((List.range m.numColumns).find? (m.isSet row)).isSome :=
    List.find?_isSome.2 ⟨column, List.mem_range.2 (lt_of_isSet h).2, h⟩
  obtain ⟨first, hfirst⟩ := Option.isSome_iff_exists.1 hfound
  obtain ⟨hset, -, hbefore⟩ := List.find?_range_eq_some.1 hfirst
  rw [firstColumn, hfirst, Option.getD_some]
  refine ⟨hset, Nat.le_of_not_lt fun hlt => ?_⟩
  have hclear := hbefore column hlt
  rw [h] at hclear
  cases hclear

theorem startsBefore_liveRow (hrow : m.isSet row column = true) {c : Nat}
    (hother : m.isSet other c = true) :
    (m.liveRow row).StartsBefore (m.liveRow other) ↔ m.firstColumn row < m.firstColumn other := by
  constructor
  · rintro ⟨first, hfirst, hbefore⟩
    have hle := (isSet_firstColumn (mem_ones_liveRow.1 hfirst)).2
    exact Nat.lt_of_le_of_lt hle (hbefore _ (mem_ones_liveRow.2 (isSet_firstColumn hother).1))
  · intro hlt
    refine ⟨_, mem_ones_liveRow.2 (isSet_firstColumn hrow).1, fun d hd => ?_⟩
    exact Nat.lt_of_lt_of_le hlt (isSet_firstColumn (mem_ones_liveRow.1 hd)).2

section Rows

variable (hones : ∀ row ∈ rows, ∃ column, m.isSet row column = true)
include hones

theorem isListedCover_map_liveRow (h : m.IsExactCover rows) :
    (m.remainder []).IsListedCover (rows.map m.liveRow) ↔
      rows.Pairwise fun row other => m.firstColumn row < m.firstColumn other := by
  have hiff : (rows.map m.liveRow).Pairwise LiveRow.StartsBefore ↔
      rows.Pairwise fun row other => m.firstColumn row < m.firstColumn other := by
    rw [List.pairwise_map]
    refine List.Pairwise.iff_of_mem fun hrow hother => ?_
    obtain ⟨column, hcolumn⟩ := hones _ hrow
    obtain ⟨c, hc⟩ := hones _ hother
    exact startsBefore_liveRow hcolumn hc
  refine ⟨fun hlisted => hiff.1 hlisted.pairwise, fun hpairwise => ?_⟩
  refine ⟨isExactCover_map_liveRow h, fun live hlive => ?_, hiff.2 hpairwise⟩
  obtain ⟨row, hrow, rfl⟩ := List.mem_map.1 hlive
  obtain ⟨column, hcolumn⟩ := hones row hrow
  exact List.ne_nil_of_mem (mem_ones_liveRow.2 hcolumn)

/-- No two rows of an exact cover share their smallest set column. -/
theorem pairwise_byFirstColumn (h : m.IsExactCover rows) : (m.byFirstColumn rows).Pairwise
    fun row other => m.firstColumn row < m.firstColumn other := by
  have hperm : (m.byFirstColumn rows).Perm rows := List.mergeSort_perm _ _
  have hsorted := @List.pairwise_mergeSort Nat
    (fun row other => decide (m.firstColumn row ≤ m.firstColumn other))
    (fun a b c => by simpa using Nat.le_trans) (fun a b => by simpa using Nat.le_total _ _) rows
  have hnodup : (m.byFirstColumn rows).Pairwise (· ≠ ·) := hperm.nodup_iff.2 h.nodup
  refine (hsorted.and hnodup).imp_of_mem ?_
  rintro row other hrow hother ⟨hle, hne⟩
  refine Nat.lt_of_le_of_ne (of_decide_eq_true hle) fun heq => hne ?_
  have hrow := hperm.mem_iff.1 hrow
  have hother := hperm.mem_iff.1 hother
  obtain ⟨column, hcolumn⟩ := hones row hrow
  obtain ⟨c, hc⟩ := hones other hother
  have hset := (isSet_firstColumn hcolumn).1
  have hset' := heq ▸ (isSet_firstColumn hc).1
  obtain ⟨owner, -, -, hunique⟩ := h.exists_unique _ (lt_of_isSet hset).2
  exact (hunique row hrow hset).trans (hunique other hother hset').symm

end Rows

end Matrix

namespace Links

/-- Where the matrix has an exact cover, either driver with the leftmost selector returns one without
empty rows, in the order of the rows' smallest set columns, and of all these covers, each listed in
this order, it returns the first. -/
theorem solve_leftmost_first (m : Matrix) (h : m.HasExactCover) (driver : Driver) :
    ∃ outcome solution, (ofMatrix m).solve driver .leftmost = .ok outcome ∧
      outcome.solution = some solution ∧ m.IsExactCover solution.rows ∧
      (∀ row ∈ solution.rows, ∃ column, m.isSet row column = true) ∧
      solution.rows.Pairwise (fun row other => m.firstColumn row < m.firstColumn other) ∧
      ∀ cover, m.IsExactCover cover → (∀ row ∈ cover, ∃ column, m.isSet row column = true) →
        NoLater solution.rows (m.byFirstColumn cover) := by
  have hsome := (m.isSome_solve_iff .leftmost).2 h
  obtain ⟨rows, hrows⟩ := Option.isSome_iff_exists.1 hsome
  obtain ⟨hcover, hones⟩ := Matrix.isExactCover_of_solve hrows
  have hfinds : (m.remainder []).FindsFirst ((m.remainder []).solve .leftmost).2 :=
    Remainder.search_leftmost m.ordered_ofMatrix (Nat.lt_succ_self _)
  obtain ⟨lives, hfirst, rfl⟩ := hfinds.first rows hrows
  have hlives : (lives.map LiveRow.row).map m.liveRow = lives := by
    rw [List.map_map]
    exact (List.map_congr_left fun live hlive => Matrix.liveRow_row
      (Matrix.mem_liveRows_of_cover hfirst.toIsExactCover hlive)).trans (List.map_id _)
  have hlisted : (m.remainder []).IsListedCover ((lives.map LiveRow.row).map m.liveRow) :=
    hlives.symm ▸ hfirst.toIsListedCover
  refine ⟨_, ⟨lives.map LiveRow.row⟩, (covered_ofMatrix m).solve_eq driver .leftmost, ?_, hcover, hones,
    (Matrix.isListedCover_map_liveRow hones hcover).1 hlisted, fun cover hexact hset => ?_⟩
  · rw [outcome, hrows]
    rfl
  · have hperm : (m.byFirstColumn cover).Perm cover := List.mergeSort_perm _ _
    have hothers := (Matrix.isListedCover_map_liveRow
      (fun row hrow => hset row (hperm.mem_iff.1 hrow)) (hexact.perm hperm.symm)).2
      (Matrix.pairwise_byFirstColumn hset hexact)
    have hrow : LiveRow.row ∘ m.liveRow = id := rfl
    have hnoLater := hfirst.noLater _ hothers
    rwa [List.map_map, hrow, List.map_id] at hnoLater

/-- The cover by row 2 alone is later than the one by the rows 1 and 0. -/
theorem solve_leftmost_first_threeCovers :
    threeCovers.HasExactCover ∧
    ∃ outcome solution, (ofMatrix threeCovers).solve .iterative .leftmost = .ok outcome ∧
      outcome.solution = some solution ∧ threeCovers.IsExactCover solution.rows ∧
      (∀ row ∈ solution.rows, ∃ column, threeCovers.isSet row column = true) ∧
      solution.rows.Pairwise
        (fun row other => threeCovers.firstColumn row < threeCovers.firstColumn other) ∧
      ∀ cover, threeCovers.IsExactCover cover →
        (∀ row ∈ cover, ∃ column, threeCovers.isSet row column = true) →
        NoLater solution.rows (threeCovers.byFirstColumn cover) :=
  have hcover : threeCovers.HasExactCover := ⟨[0, 1], by decide, by decide, by decide⟩
  ⟨hcover, solve_leftmost_first threeCovers hcover .iterative⟩

end Links

end ExactCover
