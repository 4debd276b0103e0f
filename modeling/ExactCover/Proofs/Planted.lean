import Mathlib.Algebra.BigOperators.Group.List.Basic
import Mathlib.Data.List.Nodup
import ExactCover.Planted
import ExactCover.Proofs.Matrix.Construct
import ExactCover.Proofs.Random
import ExactCover.Proofs.Solution
/-!
Planted matrices are what they are said to be: the marked rows are an exact cover by groups of
limited size, and no other row is empty. This takes no more than lawful draws.
-/

namespace ExactCover.Planted

variable {g : Generator} {p : Planted} {maxGroup groups columns column : Nat} {rest row : List Nat}
  {density : Float} {rows : List (Bool × List Nat)}

section Drawing

theorem cut_nil (groups : Nat) (r : g.State) : (cut g maxGroup groups [] r).1 = [] := by
  cases groups <;> rfl

theorem cut_of_ne_nil (hne : rest ≠ []) (r : g.State) {draw : Nat × g.State}
    (hdraw : g.between 1 (min maxGroup rest.length) r = draw) :
    (cut g maxGroup (groups + 1) rest r).1 =
      rest.take draw.1 :: (cut g maxGroup groups (rest.drop draw.1) draw.2).1 := by
  subst hdraw
  rw [cut, if_neg (by simpa using hne)]

/-- The groups that a list is cut into are the list again, where there may be as many groups as
members. -/
theorem flatten_cut (hg : g.Lawful) (hmax : 1 ≤ maxGroup) (hlength : rest.length ≤ groups)
    (r : g.State) : (cut g maxGroup groups rest r).1.flatten = rest := by
  induction groups generalizing rest r with
  | zero =>
    rw [List.eq_nil_of_length_eq_zero (Nat.le_zero.1 hlength), cut_nil]
    rfl
  | succ groups ih =>
    by_cases hne : rest = []
    · rw [hne, cut_nil]
      rfl
    · have hpos : 0 < rest.length := List.length_pos_iff.2 hne
      generalize hdraw : g.between 1 (min maxGroup rest.length) r = draw
      have hsize : 1 ≤ draw.1 :=
        hdraw ▸ (hg.between_mem r (show 1 ≤ min maxGroup rest.length by omega)).1
      have hdrop : (rest.drop draw.1).length ≤ groups := by
        rw [List.length_drop]
        omega
      rw [cut_of_ne_nil hne r hdraw, List.flatten_cons, ih hdrop, List.take_append_drop]

theorem length_of_mem_cut (hg : g.Lawful) (hmax : 1 ≤ maxGroup) (r : g.State)
    (hrow : row ∈ (cut g maxGroup groups rest r).1) : 1 ≤ row.length ∧ row.length ≤ maxGroup := by
  induction groups generalizing rest r with
  | zero => cases hrow
  | succ groups ih =>
    by_cases hne : rest = []
    · rw [hne, cut_nil] at hrow
      cases hrow
    · have hpos : 0 < rest.length := List.length_pos_iff.2 hne
      generalize hdraw : g.between 1 (min maxGroup rest.length) r = draw
      obtain ⟨hone, hle⟩ : 1 ≤ draw.1 ∧ draw.1 ≤ min maxGroup rest.length :=
        hdraw ▸ hg.between_mem r (show 1 ≤ min maxGroup rest.length by omega)
      rw [cut_of_ne_nil hne r hdraw] at hrow
      rcases List.mem_cons.1 hrow with rfl | hrow
      · rw [List.length_take]
        omega
      · exact ih _ hrow

theorem drawColumns_sublist (columns : List Nat) (r : g.State) :
    (drawColumns g density columns r).1.Sublist columns := by
  induction columns generalizing r with
  | nil => exact .slnil
  | cons column columns ih =>
    have hrest := ih (g.unit r).2
    by_cases hdraw : (g.unit r).1 < density
    · simpa [drawColumns, hdraw] using hrest
    · simpa [drawColumns, hdraw] using hrest.cons column

theorem drawRow_spec (hg : g.Lawful) (hcolumns : 1 ≤ columns) (r : g.State) :
    (drawRow g columns density r).1 ≠ [] ∧ (drawRow g columns density r).1.length ≤ columns ∧
      ∀ column ∈ (drawRow g columns density r).1, column < columns := by
  have hsub : (drawColumns g density (List.range columns) r).1.Sublist (List.range columns) :=
    drawColumns_sublist _ r
  unfold drawRow
  generalize drawColumns g density (List.range columns) r = drawn at hsub ⊢
  obtain ⟨ones, r⟩ := drawn
  by_cases hempty : ones.isEmpty = true
  · simp only [hempty, if_true]
    refine ⟨List.cons_ne_nil _ _, hcolumns, fun column hcolumn => ?_⟩
    have hle := (hg.between_mem r (Nat.zero_le (columns - 1))).2
    rw [List.mem_singleton.1 hcolumn]
    exact Nat.lt_of_le_of_lt hle (Nat.sub_lt hcolumns Nat.one_pos)
  · simp only [hempty]
    exact ⟨fun hnil => hempty (List.isEmpty_iff.2 hnil), by simpa using hsub.length_le,
      fun column hcolumn => List.mem_range.1 (hsub.subset hcolumn)⟩

theorem length_drawRows (count : Nat) (r : g.State) :
    (drawRows g columns density count r).1.length = count := by
  induction count generalizing r with
  | zero => rfl
  | succ count ih => exact congrArg (· + 1) (ih _)

theorem drawRows_spec (hg : g.Lawful) (hcolumns : 1 ≤ columns) {count : Nat} (r : g.State)
    (hrow : row ∈ (drawRows g columns density count r).1) :
    row ≠ [] ∧ row.length ≤ columns ∧ ∀ column ∈ row, column < columns := by
  induction count generalizing r with
  | zero => cases hrow
  | succ count ih =>
    rcases List.mem_cons.1 hrow with rfl | hrow
    · exact drawRow_spec hg hcolumns r
    · exact ih _ hrow

end Drawing

def groupsOf (rows : List (Bool × List Nat)) : List (List Nat) :=
  (rows.filter (·.1)).map Prod.snd

/-- Rows in any order whose marked ones divide the columns among them. -/
structure Divided (p : Planted) (rows : List (Bool × List Nat)) : Prop where
  flatten_perm : (groupsOf rows).flatten.Perm (List.range p.columns)
  length_group : ∀ row, (true, row) ∈ rows → 1 ≤ row.length ∧ row.length ≤ p.groupLimit
  length_eq : rows.length = (groupsOf rows).length + p.extraRows
  other_ne_nil : ∀ row, (false, row) ∈ rows → row ≠ []
  length_other : ∀ row, (false, row) ∈ rows → row.length ≤ p.columns
  other_lt : ∀ row, (false, row) ∈ rows → ∀ column ∈ row, column < p.columns

theorem Divided.perm {rows others : List (Bool × List Nat)} (h : p.Divided rows)
    (hperm : others.Perm rows) : p.Divided others := by
  have hgroups : (groupsOf others).Perm (groupsOf rows) := (hperm.filter _).map _
  refine ⟨hgroups.flatten.trans h.flatten_perm, ?_, ?_, ?_, ?_, ?_⟩
  · exact fun row hrow => h.length_group row (hperm.mem_iff.1 hrow)
  · rw [hperm.length_eq, hgroups.length_eq, h.length_eq]
  · exact fun row hrow => h.other_ne_nil row (hperm.mem_iff.1 hrow)
  · exact fun row hrow => h.length_other row (hperm.mem_iff.1 hrow)
  · exact fun row hrow => h.other_lt row (hperm.mem_iff.1 hrow)

/-- The groups have as many entries as columns, and each of the other rows has `bound` at most. -/
theorem sum_length_ascend_le {bound : Nat}
    (hbound : ∀ row, (false, row) ∈ rows → row.length ≤ bound) :
    (rows.map fun entry => (ascend entry.2).length).sum + (groupsOf rows).length * bound ≤
      (groupsOf rows).flatten.length + rows.length * bound := by
  induction rows with
  | nil => exact Nat.le_refl _
  | cons entry rows ih =>
    obtain ⟨mark, row⟩ := entry
    have hrest := ih fun row hrow => hbound row (List.mem_cons_of_mem _ hrow)
    have hascend := length_ascend_le row
    rw [List.map_cons, List.sum_cons, List.length_cons, Nat.succ_mul]
    change (ascend row).length + _ + _ ≤ _
    cases mark with
    | true =>
      have hgroups : groupsOf ((true, row) :: rows) = row :: groupsOf rows := rfl
      rw [hgroups, List.length_cons, List.flatten_cons, List.length_append, Nat.succ_mul]
      omega
    | false =>
      have hgroups : groupsOf ((false, row) :: rows) = groupsOf rows := rfl
      have hrow := hbound row List.mem_cons_self
      rw [hgroups]
      omega

theorem groupsOf_append (groups others : List (List Nat)) :
    groupsOf (groups.map (true, ·) ++ others.map (false, ·)) = groups := by
  simp [groupsOf, List.filter_map, Function.comp_def]

/-- However the draws fall, the rows divide the columns. -/
theorem divided_drawAll (hg : g.Lawful) (hcolumns : 1 ≤ p.columns) : p.Divided (p.drawAll g) := by
  let order := g.shuffle (List.range p.columns) (g.ofSeed p.seed)
  let groups := cut g p.groupLimit p.columns order.1 order.2
  let others := drawRows g p.columns (clampUnit p.density) p.extraRows groups.2
  have hlimit : 1 ≤ p.groupLimit := Nat.le_max_left _ _
  have horder : order.1.Perm (List.range p.columns) := hg.shuffle_perm _ _
  have hlength : order.1.length ≤ p.columns := by rw [horder.length_eq, List.length_range]
  have hgroups : groups.1.flatten = order.1 := flatten_cut hg hlimit hlength _
  have hdivided : p.Divided (groups.1.map (true, ·) ++ others.1.map (false, ·)) := by
    have hothers : ∀ row, (false, row) ∈ groups.1.map (true, ·) ++ others.1.map (false, ·) →
        row ≠ [] ∧ row.length ≤ p.columns ∧ ∀ column ∈ row, column < p.columns :=
      fun row hrow => drawRows_spec hg hcolumns _ (show row ∈ others.1 by simpa using hrow)
    refine ⟨?_, ?_, ?_, fun row hrow => (hothers row hrow).1, fun row hrow => (hothers row hrow).2.1,
      fun row hrow => (hothers row hrow).2.2⟩
    · rw [groupsOf_append, hgroups]
      exact horder
    · intro row hrow
      exact length_of_mem_cut hg hlimit _ (show row ∈ groups.1 by simpa using hrow)
    · rw [groupsOf_append, List.length_append, List.length_map, List.length_map, length_drawRows]
  exact hdivided.perm (hg.shuffle_perm _ _)

section Marked

variable {index : Nat}

theorem mem_marked : index ∈ marked rows ↔ ∃ row, rows[index]? = some (true, row) := by
  simp only [marked, List.mem_map, List.mem_filter, Prod.exists, List.mem_zipIdx_iff_getElem?]
  constructor
  · rintro ⟨mark, row, _, ⟨hrow, rfl⟩, rfl⟩
    exact ⟨row, hrow⟩
  · rintro ⟨row, hrow⟩
    exact ⟨true, row, index, ⟨hrow, rfl⟩, rfl⟩

theorem pairwise_marked (rows : List (Bool × List Nat)) : (marked rows).Pairwise (· < ·) := by
  have hplaces : (rows.zipIdx.map Prod.snd).Pairwise (· < ·) := by
    rw [List.zipIdx_map_snd]
    exact List.pairwise_lt_range'
  exact hplaces.sublist (List.filter_sublist.map Prod.snd)

theorem length_marked (rows : List (Bool × List Nat)) :
    (marked rows).length = (groupsOf rows).length := by
  rw [marked, groupsOf, List.length_map, List.length_map, ← List.countP_eq_length_filter,
    ← List.countP_eq_length_filter]
  conv_rhs => rw [← List.zipIdx_map_fst 0 rows, List.countP_map]
  rfl

end Marked

namespace Divided

variable {index other : Nat} {a b : List Nat} {m : Matrix} (h : p.Divided rows)
include h

theorem nodup_flatten : (groupsOf rows).flatten.Nodup :=
  h.flatten_perm.nodup_iff.2 List.nodup_range

omit h in
theorem mem_groupsOf : row ∈ groupsOf rows ↔ (true, row) ∈ rows := by
  simp [groupsOf]

theorem mem_group_iff : column < p.columns ↔ ∃ row, (true, row) ∈ rows ∧ column ∈ row := by
  rw [← List.mem_range, ← h.flatten_perm.mem_iff, List.mem_flatten]
  simp only [mem_groupsOf]

theorem nodup_group (hrow : (true, row) ∈ rows) : row.Nodup :=
  (List.nodup_flatten.1 h.nodup_flatten).1 row (mem_groupsOf.2 hrow)

theorem pairwise_disjoint : rows.Pairwise fun entry entry' =>
    entry.1 = true → entry'.1 = true → List.Disjoint entry.2 entry'.2 := by
  have hdisjoint := (List.nodup_flatten.1 h.nodup_flatten).2
  rw [groupsOf, List.pairwise_map, List.pairwise_filter] at hdisjoint
  exact hdisjoint.imp fun himp ha hb => himp ha hb

theorem place_inj (ha : rows[index]? = some (true, a)) (hb : rows[other]? = some (true, b))
    (hcolumn : column ∈ a) (hcolumn' : column ∈ b) : index = other := by
  obtain ⟨hi, ha⟩ := List.getElem?_eq_some_iff.1 ha
  obtain ⟨hj, hb⟩ := List.getElem?_eq_some_iff.1 hb
  have hpairs := List.pairwise_iff_getElem.1 h.pairwise_disjoint
  rcases Nat.lt_trichotomy index other with hlt | rfl | hlt
  · have hdisjoint := hpairs index other hi hj hlt (by rw [ha]) (by rw [hb])
    rw [ha, hb] at hdisjoint
    exact absurd hcolumn' (hdisjoint hcolumn)
  · rfl
  · have hdisjoint := hpairs other index hj hi hlt (by rw [hb]) (by rw [ha])
    rw [ha, hb] at hdisjoint
    exact absurd hcolumn (hdisjoint hcolumn')

theorem entry_lt {entry : Bool × List Nat} (hentry : entry ∈ rows) (hcolumn : column ∈ entry.2) :
    column < p.columns := by
  obtain ⟨mark, row⟩ := entry
  cases mark with
  | true => exact h.mem_group_iff.2 ⟨row, hentry, hcolumn⟩
  | false => exact h.other_lt row hentry column hcolumn

theorem length_flatten : (groupsOf rows).flatten.length = p.columns :=
  h.flatten_perm.length_eq.trans List.length_range

/-- No group is empty, so there are no more of them than columns. -/
theorem length_le : rows.length ≤ p.columns + p.extraRows := by
  have hone : ∀ size ∈ (groupsOf rows).map List.length, 1 ≤ size := by
    intro size hsize
    obtain ⟨row, hrow, rfl⟩ := List.mem_map.1 hsize
    exact (h.length_group row (mem_groupsOf.1 hrow)).1
  have hgroups := List.length_le_sum_of_one_le _ hone
  rw [List.length_map, ← List.length_flatten, h.length_flatten] at hgroups
  rw [h.length_eq]
  exact Nat.add_le_add_right hgroups _

theorem rows_ne_nil (hcolumns : 1 ≤ p.columns) : rows ≠ [] := by
  obtain ⟨row, hrow, -⟩ := h.mem_group_iff.1 hcolumns
  exact List.ne_nil_of_mem hrow

omit h in
theorem ones?_eq (hm : m.rows = rows.map fun entry => ascend entry.2) {mark : Bool}
    (hrow : rows[index]? = some (mark, row)) : m.ones? index = some (ascend row) := by
  rw [Matrix.ones?, hm, List.getElem?_map, hrow, Option.map_some]

omit h in
theorem isSet_iff (hm : m.rows = rows.map fun entry => ascend entry.2) {mark : Bool}
    (hrow : rows[index]? = some (mark, row)) : m.isSet index column = true ↔ column ∈ row := by
  rw [Matrix.isSet_iff, ones?_eq hm hrow, Option.getD_some, mem_ascend]

/-- The marked rows are an exact cover: each column is in one group. -/
theorem isExactCover (hcolumns : m.numColumns = p.columns)
    (hm : m.rows = rows.map fun entry => ascend entry.2) : m.IsExactCover (marked rows) where
  nodup := (pairwise_marked rows).imp Nat.ne_of_lt
  lt_numRows := by
    intro index hindex
    obtain ⟨row, hrow⟩ := mem_marked.1 hindex
    rw [Matrix.numRows, hm, List.length_map]
    exact (List.getElem?_eq_some_iff.1 hrow).1
  exists_unique := by
    intro column hcolumn
    obtain ⟨row, hmem, hrow⟩ := h.mem_group_iff.1 (hcolumns ▸ hcolumn)
    obtain ⟨index, hindex⟩ := List.mem_iff_getElem?.1 hmem
    refine ⟨index, mem_marked.2 ⟨row, hindex⟩, (isSet_iff hm hindex).2 hrow, ?_⟩
    intro other hother hset
    obtain ⟨row', hrow'⟩ := mem_marked.1 hother
    exact h.place_inj hrow' hindex ((isSet_iff hm hrow').1 hset) hrow

theorem length_ones (hm : m.rows = rows.map fun entry => ascend entry.2)
    (hindex : index ∈ marked rows) : ∃ ones, m.ones? index = some ones ∧
      1 ≤ ones.length ∧ ones.length ≤ p.groupLimit := by
  obtain ⟨row, hrow⟩ := mem_marked.1 hindex
  have hmem := List.mem_of_getElem? hrow
  refine ⟨_, ones?_eq hm hrow, ?_⟩
  rw [length_ascend_eq_iff.2 (h.nodup_group hmem)]
  exact h.length_group row hmem

/-- No row is empty, whether it is marked or not. -/
theorem ones_ne_nil (hm : m.rows = rows.map fun entry => ascend entry.2)
    (hindex : index < m.numRows) : ∃ ones, m.ones? index = some ones ∧ ones ≠ [] := by
  rw [Matrix.numRows, hm, List.length_map] at hindex
  obtain ⟨⟨mark, row⟩, hrow⟩ : ∃ entry, rows[index]? = some entry :=
    ⟨_, List.getElem?_eq_getElem hindex⟩
  have hmem := List.mem_of_getElem? hrow
  have hne : row ≠ [] := by
    cases mark with
    | true => exact List.length_pos_iff.1 (h.length_group row hmem).1
    | false => exact h.other_ne_nil row hmem
  obtain ⟨column, hcolumn⟩ := List.exists_mem_of_ne_nil row hne
  exact ⟨_, ones?_eq hm hrow, List.ne_nil_of_mem (mem_ascend.2 hcolumn)⟩

/-- An extra row may set every column, and the groups together set each column once. -/
theorem numOnes_le (hm : m.rows = rows.map fun entry => ascend entry.2) :
    m.numOnes ≤ p.columns + p.extraRows * p.columns := by
  have hones : m.numOnes = (rows.map fun entry => (ascend entry.2).length).sum := by
    rw [Matrix.numOnes, hm, List.length_flatten, List.map_map]
    rfl
  have hsum := sum_length_ascend_le h.length_other
  rw [← hones, h.length_flatten, h.length_eq, Nat.add_mul] at hsum
  omega

theorem overflow?_eq_none (hrows : p.columns + p.extraRows ≤ rowLimit) : overflow? rows = none := by
  have hle : rowLimit ≤ drawnLimit := by decide +kernel
  have hlength := h.length_le
  rw [overflow?, if_neg (by omega), Option.map_eq_none_iff, List.find?_eq_none]
  rintro ⟨mark, row⟩ hrow
  cases mark with
  | true => simp
  | false =>
    have hrow_le := h.length_other row hrow
    simp only [Bool.not_false, Bool.true_and, decide_eq_true_eq]
    omega

end Divided

/-- There is at least one group, so as many extra rows as a list holds are too many. -/
theorem generate_of_rowLimit_le (hg : g.Lawful) (hcolumns : 1 ≤ p.columns)
    (hextra : rowLimit ≤ p.extraRows) : ∃ cause, p.generate g = .error (.tooLarge cause) := by
  have h := divided_drawAll hg hcolumns
  have hgroups : 0 < (groupsOf (p.drawAll g)).length := by
    obtain ⟨row, hrow, -⟩ := h.mem_group_iff.1 hcolumns
    exact List.length_pos_of_mem (Divided.mem_groupsOf.2 hrow)
  have hlong : rowLimit < (p.drawAll g).length := by
    rw [h.length_eq]
    omega
  unfold generate
  rw [if_neg (by omega)]
  by_cases hwide : columnLimit < p.columns
  · exact ⟨_, if_pos hwide⟩
  · rw [if_neg hwide]
    simp only [overflow?, if_pos hlong]
    exact ⟨_, rfl⟩

/-- A matrix as it is drawn, with the rows of its planted cover. Only where there may be more rows
than a list holds can there be too much of anything. -/
theorem generate_cases (hg : g.Lawful) (hcolumns : 1 ≤ p.columns) :
    (rowLimit < p.columns + p.extraRows ∧ ∃ cause, p.generate g = .error (.tooLarge cause)) ∨
    ∃ planted, p.generate g = .ok planted ∧ planted.matrix.numColumns = p.columns ∧
      planted.matrix.rows = (p.drawAll g).map (fun entry => ascend entry.2) ∧
      planted.cover = marked (p.drawAll g) := by
  have h := divided_drawAll hg hcolumns
  have hle : rowLimit ≤ columnLimit := by decide +kernel
  unfold generate
  rw [if_neg (by omega)]
  by_cases hwide : columnLimit < p.columns
  · rw [if_pos hwide]
    exact .inl ⟨by omega, _, rfl⟩
  rw [if_neg hwide]
  cases hoverflow : overflow? (p.drawAll g) with
  | some cause =>
    refine .inl ⟨Nat.lt_of_not_le fun hfits => ?_, cause, by simp only [hoverflow]⟩
    rw [h.overflow?_eq_none hfits] at hoverflow
    cases hoverflow
  | none =>
    right
    have hne : (p.drawAll g).map Prod.snd ≠ [] := by simpa using h.rows_ne_nil hcolumns
    have hlt : ∀ row ∈ (p.drawAll g).map Prod.snd, ∀ column ∈ row, column < p.columns := by
      intro row hrow column hcolumn
      obtain ⟨entry, hentry, rfl⟩ := List.mem_map.1 hrow
      exact h.entry_lt hentry hcolumn
    obtain ⟨matrix, hmatrix, hwidth, hrows⟩ := Matrix.ofSparse_eq_ok hcolumns hne hlt
    refine ⟨{ matrix, cover := marked (p.drawAll g) }, ?_, hwidth, ?_, rfl⟩
    · simp only [hoverflow, hmatrix]
    · rw [hrows, List.map_map]
      rfl

theorem of_generate {planted : PlantedMatrix} (hg : g.Lawful) (h : p.generate g = .ok planted) :
    1 ≤ p.columns ∧ planted.matrix.numColumns = p.columns ∧
      planted.matrix.rows = (p.drawAll g).map (fun entry => ascend entry.2) ∧
      planted.cover = marked (p.drawAll g) := by
  have hcolumns : 1 ≤ p.columns := by
    refine Nat.pos_of_ne_zero fun hzero => ?_
    rw [generate, if_pos hzero] at h
    cases h
  rcases generate_cases hg hcolumns with ⟨-, cause, hcause⟩ | ⟨planted', hplanted, hdrawn⟩
  · rw [hcause] at h
    cases h
  · obtain rfl : planted' = planted := Except.ok.inj (hplanted.symm.trans h)
    exact ⟨hcolumns, hdrawn⟩

end ExactCover.Planted
