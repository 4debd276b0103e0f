import ExactCover.Proofs.Remainder
/-!
What the plain search does at one level: which column it picks, and the three ways in which it goes
on from there. They are the cases of an induction over the whole search.
-/

namespace ExactCover

/-- The first of the members with the least value. -/
def FirstLeast (f : Nat → Nat) (l : List Nat) (x : Nat) : Prop :=
  ∃ before after, l = before ++ x :: after ∧ (∀ y ∈ before, f x < f y) ∧ ∀ y ∈ after, f x ≤ f y

variable {f : Nat → Nat} {l : List Nat} {x y : Nat}

theorem FirstLeast.mem (h : FirstLeast f l x) : x ∈ l := by
  obtain ⟨before, after, rfl, -, -⟩ := h
  exact List.mem_append_right before List.mem_cons_self

theorem FirstLeast.le (h : FirstLeast f l x) (hy : y ∈ l) : f x ≤ f y := by
  obtain ⟨before, after, rfl, hbefore, hafter⟩ := h
  rcases List.mem_append.1 hy with hy | hy
  · exact Nat.le_of_lt (hbefore y hy)
  · rcases List.mem_cons.1 hy with rfl | hy
    · exact Nat.le_refl _
    · exact hafter y hy

/-- In an ascending list the first of the members with the least value is the least of them. -/
theorem FirstLeast.le_of_eq (h : FirstLeast f l x) (hascending : l.Pairwise (· < ·)) (hy : y ∈ l)
    (heq : f y = f x) : x ≤ y := by
  obtain ⟨before, after, rfl, hbefore, -⟩ := h
  rcases List.mem_append.1 hy with hy | hy
  · exact absurd heq (Nat.ne_of_gt (hbefore y hy))
  · rcases List.mem_cons.1 hy with rfl | hy
    · exact Nat.le_refl _
    · exact Nat.le_of_lt ((List.pairwise_cons.1 (List.pairwise_append.1 hascending).2.1).1 y hy)

theorem FirstLeast.cons_of_lt (h : FirstLeast f (y :: l) x) {z : Nat} (hlt : f y < f z) :
    FirstLeast f (z :: y :: l) x := by
  have hle : f x ≤ f y := h.le List.mem_cons_self
  obtain ⟨before, after, hsplit, hbefore, hafter⟩ := h
  refine ⟨z :: before, after, congrArg (List.cons z) hsplit, ?_, hafter⟩
  intro c hc
  rcases List.mem_cons.1 hc with rfl | hc
  · exact Nat.lt_of_le_of_lt hle hlt
  · exact hbefore c hc

theorem FirstLeast.insert_of_le (h : FirstLeast f (y :: l) x) {z : Nat} (hle : f y ≤ f z) :
    FirstLeast f (y :: z :: l) x := by
  have hx : f x ≤ f y := h.le List.mem_cons_self
  obtain ⟨before, after, hsplit, hbefore, hafter⟩ := h
  cases before with
  | nil =>
    obtain ⟨rfl, rfl⟩ := List.cons.inj hsplit
    refine ⟨[], z :: l, rfl, fun c hc => absurd hc List.not_mem_nil, ?_⟩
    intro c hc
    rcases List.mem_cons.1 hc with rfl | hc
    · exact hle
    · exact hafter c hc
  | cons b before =>
    obtain ⟨rfl, rfl⟩ := List.cons.inj hsplit
    refine ⟨y :: z :: before, after, rfl, ?_, hafter⟩
    intro c hc
    rcases List.mem_cons.1 hc with rfl | hc
    · exact hbefore c List.mem_cons_self
    · rcases List.mem_cons.1 hc with rfl | hc
      · exact Nat.lt_of_lt_of_le (hbefore y List.mem_cons_self) hle
      · exact hbefore c (List.mem_cons_of_mem y hc)

theorem exists_firstLeast (f : Nat → Nat) (y : Nat) (l : List Nat) : ∃ x, FirstLeast f (y :: l) x := by
  induction l generalizing y with
  | nil => exact ⟨y, [], [], rfl, by simp, by simp⟩
  | cons z l ih =>
    by_cases hlt : f z < f y
    · obtain ⟨x, hx⟩ := ih z
      exact ⟨x, hx.cons_of_lt hlt⟩
    · obtain ⟨x, hx⟩ := ih y
      exact ⟨x, hx.insert_of_le (Nat.le_of_not_lt hlt)⟩

theorem FirstLeast.find?_eq (h : FirstLeast f l x) :
    l.find? (fun y => l.all fun z => f y ≤ f z) = some x := by
  have hleast : l.all (fun z => f x ≤ f z) = true :=
    List.all_eq_true.2 fun z hz => decide_eq_true (h.le hz)
  have hmem := h.mem
  obtain ⟨before, after, hsplit, hbefore, -⟩ := h
  refine List.find?_eq_some_iff_append.2 ⟨hleast, before, after, hsplit, ?_⟩
  intro y hy
  have hlt : f x < f y := hbefore y hy
  rw [Bool.not_eq_true', List.all_eq_false]
  exact ⟨x, hmem, by simpa using hlt⟩

namespace Remainder

variable {p : Remainder} {selector : Selector} {column levels depth : Nat} {stats : Stats}

theorem pick_mem (h : p.pick selector = some column) : column ∈ p.columns := by
  cases selector with
  | leftmost => exact List.mem_of_head? h
  | minimumRemaining => exact List.mem_of_find?_eq_some h

theorem columns_eq_nil (h : p.pick selector = none) : p.columns = [] := by
  cases selector with
  | leftmost => exact List.head?_eq_none_iff.1 h
  | minimumRemaining =>
    cases hcolumns : p.columns with
    | nil => rfl
    | cons column columns =>
      obtain ⟨x, hx⟩ := exists_firstLeast (fun c => (p.candidates c).length) column columns
      rw [pick, hcolumns, hx.find?_eq] at h
      cases h

theorem mem_candidates {live : LiveRow} :
    live ∈ p.candidates column ↔ live ∈ p.rows ∧ column ∈ live.ones := by
  simp [candidates]

theorem mem_columns_select {live : LiveRow} :
    column ∈ (p.select live).columns ↔ column ∈ p.columns ∧ column ∉ live.ones := by
  simp [select]

theorem mem_rows_select {live other : LiveRow} : other ∈ (p.select live).rows ↔
    other ∈ p.rows ∧ ∀ column ∈ live.ones, column ∉ other.ones := by
  simp [select]

theorem length_columns_select {live : LiveRow} (hcolumn : column ∈ p.columns)
    (hones : column ∈ live.ones) : (p.select live).columns.length < p.columns.length := by
  rw [select, List.length_filter_lt_length_iff_exists]
  exact ⟨column, hcolumn, by simp [hones]⟩

theorem search_solved (h : p.pick selector = none) :
    search selector (levels + 1) depth p stats = (stats.enter depth, some []) := by
  rw [search, h]

theorem search_deadEnd (h : p.pick selector = some column) (hnone : p.candidates column = []) :
    search selector (levels + 1) depth p stats = ((stats.enter depth).deadEnd, none) := by
  rw [search, h]
  simp only [hnone, List.isEmpty_nil, if_true]

theorem search_branch (h : p.pick selector = some column) (hsome : p.candidates column ≠ []) :
    search selector (levels + 1) depth p stats =
      tryRows (fun live stats =>
          search selector levels (depth + 1) (p.select live)
            (stats.tryRow ((p.strike column).costAll (others live column))))
        (p.candidates column) ((stats.enter depth).update (p.cost column)) := by
  have hempty : (p.candidates column).isEmpty = false := by simpa using hsome
  rw [search, h]
  simp only [hempty, Bool.false_eq_true, if_false]

theorem tryRows_congr {descend descend' : LiveRow → Stats → Stats × Option (List Nat)}
    {lives : List LiveRow} (h : ∀ live ∈ lives, descend live = descend' live) :
    tryRows descend lives stats = tryRows descend' lives stats := by
  induction lives generalizing stats with
  | nil => rfl
  | cons live lives ih =>
    have hrest := fun stats => @ih stats fun l hl => h l (List.mem_cons_of_mem live hl)
    simp only [tryRows, h live List.mem_cons_self, hrest]

/-- What holds where no column is left and where a picked column has no candidate, and of trying the
candidates of a picked column if it holds below each of them, holds of the search. Each level strikes
out a column, so there are enough of them. -/
theorem search_induction {motive : Remainder → Nat → Stats → Stats × Option (List Nat) → Prop}
    (solved : ∀ {p : Remainder} {depth : Nat} {stats : Stats}, p.pick selector = none →
      motive p depth stats (stats.enter depth, some []))
    (deadEnd : ∀ {p : Remainder} {depth column : Nat} {stats : Stats}, p.pick selector = some column →
      p.candidates column = [] → motive p depth stats ((stats.enter depth).deadEnd, none))
    (branch : ∀ {p : Remainder} {depth column : Nat} {stats : Stats}
      {descend : LiveRow → Stats → Stats × Option (List Nat)}, p.pick selector = some column →
      p.candidates column ≠ [] →
      (∀ live ∈ p.candidates column, ∀ stats : Stats, ∃ updates,
        motive (p.select live) (depth + 1) (stats.tryRow updates) (descend live stats)) →
      motive p depth stats (tryRows descend (p.candidates column)
        ((stats.enter depth).update (p.cost column))))
    (hlevels : p.columns.length < levels) :
    motive p depth stats (search selector levels depth p stats) := by
  induction levels generalizing p depth stats with
  | zero => cases hlevels
  | succ levels ih =>
    cases hpick : p.pick selector with
    | none =>
      rw [search_solved hpick]
      exact solved hpick
    | some column =>
      by_cases hnone : p.candidates column = []
      · rw [search_deadEnd hpick hnone]
        exact deadEnd hpick hnone
      · rw [search_branch hpick hnone]
        refine branch hpick hnone fun live hlive stats => ⟨_, ih ?_⟩
        have hlt := length_columns_select (pick_mem hpick) (mem_candidates.1 hlive).2
        exact Nat.lt_of_lt_of_le hlt (Nat.le_of_lt_succ hlevels)

/-- Levels beyond the number of active columns make no difference. -/
theorem search_eq_of_lt {levels' : Nat} (hlevels : p.columns.length < levels)
    (hlevels' : p.columns.length < levels') :
    search selector levels depth p stats = search selector levels' depth p stats := by
  induction levels generalizing levels' depth p stats with
  | zero => cases hlevels
  | succ levels ih =>
    cases levels' with
    | zero => cases hlevels'
    | succ levels' =>
      cases hpick : p.pick selector with
      | none => rw [search_solved hpick, search_solved hpick]
      | some column =>
        by_cases hnone : p.candidates column = []
        · rw [search_deadEnd hpick hnone, search_deadEnd hpick hnone]
        · rw [search_branch hpick hnone, search_branch hpick hnone]
          refine tryRows_congr fun live hlive => ?_
          have hlt := length_columns_select (pick_mem hpick) (mem_candidates.1 hlive).2
          funext stats
          exact ih (Nat.lt_of_lt_of_le hlt (Nat.le_of_lt_succ hlevels))
            (Nat.lt_of_lt_of_le hlt (Nat.le_of_lt_succ hlevels'))

end Remainder

end ExactCover
