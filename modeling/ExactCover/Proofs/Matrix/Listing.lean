import ExactCover.Proofs.Matrix.Construct
/-!
What becomes of a listing: the matrix that has the listed entries and no others, or the first fault in
the order of reading. The three ways to list a matrix differ in what they can get wrong and end in the
same matrix.
-/

namespace ExactCover

theorem mem_setColumnsFrom {first place : Nat} {bits : List Bool} :
    first + place ∈ setColumnsFrom first bits ↔ bits[place]? = some true := by
  induction bits generalizing first place with
  | nil => simp [setColumnsFrom]
  | cons bit bits ih =>
    cases place with
    | zero =>
      -- The columns from the next one on do not hold this one.
      have hrest : first ∉ setColumnsFrom (first + 1) bits :=
        fun h => Nat.not_succ_le_self first (le_of_mem_setColumnsFrom h)
      cases bit <;> simp [setColumnsFrom, hrest]
    | succ place =>
      have hrest := @ih (first + 1) place
      rw [Nat.add_right_comm, Nat.add_assoc] at hrest
      cases bit <;> simp [setColumnsFrom, hrest]

namespace Matrix

/-- The entries of the matrix are those listed, and outside the listing there is none. -/
def Lists (m : Matrix) (rows : List (List Bool)) : Prop :=
  ∀ row column, m.entry? row column = rows[row]?.bind (·[column]?)

def rowWith (numColumns : Nat) (columns : List Nat) : List Bool :=
  (List.range numColumns).map columns.contains

/-- What becomes of a listing of entries. -/
inductive EntriesGive (rows : List (List Bool)) : Except MatrixError Matrix → Prop
  | noRows : rows = [] → EntriesGive rows (.error .noRows)
  | noColumns : rows.head? = some [] → EntriesGive rows (.error .noColumns)
  | ragged {row : Nat} {first entries : List Bool} : rows.head? = some first → first ≠ [] →
      IsFirst (·.length ≠ first.length) rows row entries →
      EntriesGive rows (.error (.ragged row first.length entries.length))
  | matrix {first : List Bool} {m : Matrix} : rows.head? = some first → first ≠ [] →
      (∀ entries ∈ rows, entries.length = first.length) → m.Lists rows → EntriesGive rows (.ok m)

def HasInvalid (values : List UInt8) : Prop := ∃ value ∈ values, 1 < value

inductive BytesGive (rows : List (List UInt8)) : Except MatrixError Matrix → Prop
  | invalidEntry {row column : Nat} {values : List UInt8} {value : UInt8} :
      IsFirst HasInvalid rows row values →
      IsFirst (1 < ·) values column value →
      BytesGive rows (.error (.invalidEntry row column value.toNat))
  | entries {result : Except MatrixError Matrix} : (∀ values ∈ rows, ∀ value ∈ values, value ≤ 1) →
      ofDense (rows.map (List.map (· == 1))) = result → BytesGive rows result

inductive ColumnsGive (numColumns : Nat) (rows : List (List Nat)) : Except MatrixError Matrix → Prop
  | noColumns : numColumns = 0 → ColumnsGive numColumns rows (.error .noColumns)
  | outOfRange {row place column : Nat} {columns : List Nat} : 0 < numColumns →
      IsFirst (LeavesRange numColumns) rows row columns →
      IsFirst (numColumns ≤ ·) columns place column →
      ColumnsGive numColumns rows (.error (.columnOutOfRange row column numColumns))
  | noRows : 0 < numColumns → rows = [] → ColumnsGive numColumns rows (.error .noRows)
  | matrix {m : Matrix} : 0 < numColumns → rows ≠ [] →
      (∀ columns ∈ rows, ∀ column ∈ columns, column < numColumns) →
      ofDense (rows.map (rowWith numColumns)) = .ok m → ColumnsGive numColumns rows (.ok m)

section Entries

variable {m m' : Matrix} {row column : Nat} {rows : List (List Bool)} {result : Except MatrixError Matrix}

/-- There is no entry exactly outside the matrix. -/
theorem entry?_eq_none_iff :
    m.entry? row column = none ↔ m.numRows ≤ row ∨ m.numColumns ≤ column := by
  unfold entry?
  cases hones : m.ones? row with
  | none => simpa using .inl (List.getElem?_eq_none_iff.1 hones)
  | some ones =>
    have hrow : ¬ m.numRows ≤ row := Nat.not_le.2 (List.getElem?_eq_some_iff.1 hones).1
    simp [hrow]

theorem entry?_eq_some_true_iff : m.entry? row column = some true ↔ m.isSet row column = true := by
  rw [isSet, beq_iff_eq]

theorem Lists.unique (h : m.Lists rows) (h' : m'.Lists rows) : m = m' := by
  have hentry : ∀ row column, m.entry? row column = m'.entry? row column :=
    fun row column => (h row column).trans (h' row column).symm
  have houtside : ∀ row column, m.numRows ≤ row ∨ m.numColumns ≤ column ↔
      m'.numRows ≤ row ∨ m'.numColumns ≤ column := by
    intro row column
    rw [← entry?_eq_none_iff, ← entry?_eq_none_iff, hentry]
  -- Each matrix has an entry in its first row and in its first column.
  have hrows : ∀ row, m.numRows ≤ row ↔ m'.numRows ≤ row := by
    intro row
    simpa [Nat.pos_iff_ne_zero.1 m.numColumns_pos, Nat.pos_iff_ne_zero.1 m'.numColumns_pos]
      using houtside row 0
  have hcolumns : ∀ column, m.numColumns ≤ column ↔ m'.numColumns ≤ column := by
    intro column
    simpa [Nat.pos_iff_ne_zero.1 m.numRows_pos, Nat.pos_iff_ne_zero.1 m'.numRows_pos]
      using houtside 0 column
  apply ext_isSet
  · exact Nat.le_antisymm ((hcolumns _).2 (Nat.le_refl _)) ((hcolumns _).1 (Nat.le_refl _))
  · exact Nat.le_antisymm ((hrows _).2 (Nat.le_refl _)) ((hrows _).1 (Nat.le_refl _))
  · intro row column
    rw [isSet, isSet, hentry]

theorem lists_of_rows_eq (hlength : ∀ entries ∈ rows, entries.length = m.numColumns)
    (hrows : m.rows = rows.map (setColumnsFrom 0)) : m.Lists rows := by
  intro row column
  unfold entry?
  rw [ones?, hrows, List.getElem?_map]
  cases hentries : rows[row]? with
  | none => rfl
  | some entries =>
    have hwidth := hlength entries (List.mem_of_getElem? hentries)
    rw [Option.map_some, Option.bind_some]
    have hcontains : (setColumnsFrom 0 entries).contains column = (entries[column]? == some true) := by
      have hmem := @mem_setColumnsFrom 0 column entries
      rw [Nat.zero_add] at hmem
      rw [Bool.eq_iff_iff, List.contains_iff_mem, hmem, beq_iff_eq]
    simp only [hcontains, ← hwidth]
    by_cases hcolumn : column < entries.length
    · simp [hcolumn]
    · simp [hcolumn]

theorem firstRagged_eq_some_iff {width found : Nat} : firstRagged width rows = some (row, found) ↔
    ∃ entries, IsFirst (·.length ≠ width) rows row entries ∧ entries.length = found := by
  rw [firstRagged, findSome?_zipIdx_eq_some_iff (p := (·.length ≠ width)) (by simp)]
  constructor
  · rintro ⟨place, entries, hfirst, hfound⟩
    have hne : entries.length ≠ width := hfirst.holds
    simp only [hne, if_false, Nat.zero_add, Option.some.injEq, Prod.mk.injEq] at hfound
    obtain ⟨rfl, rfl⟩ := hfound
    exact ⟨entries, hfirst, rfl⟩
  · rintro ⟨entries, hfirst, rfl⟩
    have hne : entries.length ≠ width := hfirst.holds
    exact ⟨row, entries, hfirst, by simp [hne]⟩

theorem ofDense_cons_nil (rest : List (List Bool)) : ofDense ([] :: rest) = .error .noColumns := rfl

theorem ofDense_of_ragged {first : List Bool} {rest : List (List Bool)} {found : Nat} (hne : first ≠ [])
    (hragged : firstRagged first.length (first :: rest) = some (row, found)) :
    ofDense (first :: rest) = .error (.ragged row first.length found) := by
  have hwidth : first.length ≠ 0 := mt List.length_eq_zero_iff.1 hne
  unfold ofDense
  simp only [hwidth, dite_false]
  split
  case h_1 hsome =>
    rw [hragged] at hsome
    cases hsome
    rfl
  case h_2 hnone =>
    rw [hragged] at hnone
    cases hnone

/-- Rows as long as the first of them, which is not empty, are the matrix that they list. -/
theorem exists_ofDense_eq_ok {first : List Bool} {rest : List (List Bool)} (hne : first ≠ [])
    (hlength : ∀ entries ∈ first :: rest, entries.length = first.length) :
    ∃ m, ofDense (first :: rest) = .ok m ∧ m.Lists (first :: rest) := by
  obtain ⟨m, hm, hcolumns, hrows⟩ :=
    ofDense_eq_ok (List.cons_ne_nil first rest) (List.length_pos_iff.2 hne) hlength
  exact ⟨m, hm, lists_of_rows_eq (fun entries hmem => (hlength entries hmem).trans hcolumns.symm) hrows⟩

/-- A listing of entries is judged by its first row, then by the first row of another length. -/
theorem ofDense_eq_iff : ofDense rows = result ↔ EntriesGive rows result := by
  constructor
  · rintro rfl
    cases rows with
    | nil => exact .noRows rfl
    | cons first rest =>
      by_cases hne : first = []
      · subst hne
        exact .noColumns rfl
      cases hragged : firstRagged first.length (first :: rest) with
      | some fault =>
        obtain ⟨row, found⟩ := fault
        rw [ofDense_of_ragged hne hragged]
        obtain ⟨entries, hfirst, rfl⟩ := firstRagged_eq_some_iff.1 hragged
        exact .ragged rfl hne hfirst
      | none =>
        have hlength := firstRagged_eq_none_iff.1 hragged
        obtain ⟨m, hm, hlists⟩ := exists_ofDense_eq_ok hne hlength
        rw [hm]
        exact .matrix rfl hne hlength hlists
  · intro h
    cases h with
    | noRows hrows => rw [hrows]; rfl
    | noColumns hhead =>
      obtain ⟨rest, rfl⟩ := List.head?_eq_some_iff.1 hhead
      exact ofDense_cons_nil rest
    | ragged hhead hne hfirst =>
      obtain ⟨rest, rfl⟩ := List.head?_eq_some_iff.1 hhead
      exact ofDense_of_ragged hne (firstRagged_eq_some_iff.2 ⟨_, hfirst, rfl⟩)
    | matrix hhead hne hlength hlists =>
      obtain ⟨rest, rfl⟩ := List.head?_eq_some_iff.1 hhead
      obtain ⟨m, hm, hlists'⟩ := exists_ofDense_eq_ok hne hlength
      rw [hm, hlists'.unique hlists]

end Entries

section Bytes

variable {rows : List (List UInt8)} {error : MatrixError} {result : Except MatrixError Matrix}

theorem not_hasInvalid_iff (values : List UInt8) (row : Nat) :
    (values.zipIdx.findSome? fun (value, column) =>
      if 1 < value then some (MatrixError.invalidEntry row column value.toNat) else none) = none ↔
        ¬ HasInvalid values := by
  rw [findSome?_zipIdx_eq_none_iff (p := (1 < ·)) (by simp), HasInvalid]
  simp only [not_exists, not_and]

theorem firstInvalid_eq_none_iff :
    firstInvalid rows = none ↔ ∀ values ∈ rows, ∀ value ∈ values, value ≤ 1 := by
  rw [firstInvalid, findSome?_zipIdx_eq_none_iff not_hasInvalid_iff]
  simp only [HasInvalid, not_exists, not_and, UInt8.not_lt]

theorem firstInvalid_eq_some_iff : firstInvalid rows = some error ↔
    ∃ row values, IsFirst HasInvalid rows row values ∧
      ∃ column value, IsFirst (1 < ·) values column value ∧
        error = .invalidEntry row column value.toNat := by
  rw [firstInvalid, findSome?_zipIdx_eq_some_iff not_hasInvalid_iff]
  refine exists₂_congr fun row values => and_congr_right fun _ => ?_
  rw [findSome?_zipIdx_eq_some_iff (p := (1 < ·)) (by simp)]
  refine exists₂_congr fun column value => and_congr_right fun hvalue => ?_
  have hlt : 1 < value := hvalue.holds
  simp [hlt, eq_comm]

/-- Bytes are judged by their first value above 1, whatever the shape, and else as entries. -/
theorem ofBytes_eq_iff : ofBytes rows = result ↔ BytesGive rows result := by
  constructor
  · rintro rfl
    rw [ofBytes]
    cases hinvalid : firstInvalid rows with
    | none => exact .entries (firstInvalid_eq_none_iff.1 hinvalid) rfl
    | some error =>
      obtain ⟨row, values, hrow, column, value, hvalue, rfl⟩ := firstInvalid_eq_some_iff.1 hinvalid
      exact .invalidEntry hrow hvalue
  · intro h
    cases h with
    | invalidEntry hrow hvalue =>
      rw [ofBytes, firstInvalid_eq_some_iff.2 ⟨_, _, hrow, _, _, hvalue, rfl⟩]
    | entries hvalues hresult =>
      rw [ofBytes, firstInvalid_eq_none_iff.2 hvalues]
      exact hresult

-- The value is looked at before the shape.
example : ofBytes [[1, 0], [2]] = .error (.invalidEntry 1 0 2) := rfl

end Bytes

section Columns

variable {numColumns : Nat} {rows : List (List Nat)} {row column : Nat} {result : Except MatrixError Matrix}

theorem firstOutOfRange_eq_some_iff : firstOutOfRange numColumns rows = some (row, column) ↔
    ∃ columns, IsFirst (LeavesRange numColumns) rows row columns ∧
      ∃ place, IsFirst (numColumns ≤ ·) columns place column := by
  rw [firstOutOfRange, findSome?_zipIdx_eq_some_iff not_leavesRange_iff]
  simp only [Nat.zero_add, Option.map_eq_some_iff, Prod.mk.injEq,
    find?_eq_some_iff_exists_isFirst fun column : Nat => decide_eq_true_iff]
  constructor
  · rintro ⟨_, columns, hrow, column, hcolumn, rfl, rfl⟩
    exact ⟨columns, hrow, hcolumn⟩
  · rintro ⟨columns, hrow, hcolumn⟩
    exact ⟨row, columns, hrow, column, hcolumn, rfl, rfl⟩

theorem setColumnsFrom_rowWith {columns : List Nat} (hcolumns : ∀ column ∈ columns, column < numColumns) :
    setColumnsFrom 0 (rowWith numColumns columns) = ascend columns := by
  have hfilter : (setColumnsFrom 0 (rowWith numColumns columns)).map id =
      (List.range numColumns).filter columns.contains := map_setColumnsFrom (by simp)
  rw [List.map_id] at hfilter
  rw [hfilter]
  apply (List.pairwise_lt_range.filter _).eq_of_mem_iff (pairwise_ascend columns)
  intro column
  rw [List.mem_filter, List.mem_range, List.contains_iff_mem, mem_ascend]
  exact ⟨And.right, fun h => ⟨hcolumns column h, h⟩⟩

/-- Columns in range, in any order and with repeats, list the matrix of the rows in which they are
set. -/
theorem exists_ofSparse_eq_ok (hcolumns : 0 < numColumns) (hrows : rows ≠ [])
    (hlt : ∀ columns ∈ rows, ∀ column ∈ columns, column < numColumns) :
    ∃ m, ofSparse numColumns rows = .ok m ∧ ofDense (rows.map (rowWith numColumns)) = .ok m := by
  have hlength : ∀ entries ∈ rows.map (rowWith numColumns), entries.length = numColumns := by
    intro entries hentries
    obtain ⟨columns, -, rfl⟩ := List.mem_map.1 hentries
    rw [rowWith, List.length_map, List.length_range]
  obtain ⟨m, hm, hmcolumns, hmrows⟩ := ofSparse_eq_ok hcolumns hrows hlt
  obtain ⟨m', hm', hmcolumns', hmrows'⟩ :=
    ofDense_eq_ok (mt List.map_eq_nil_iff.1 hrows) hcolumns hlength
  have hsame : m'.rows = m.rows := by
    rw [hmrows', hmrows, List.map_map]
    exact List.map_congr_left fun columns hmem => setColumnsFrom_rowWith (hlt columns hmem)
  exact ⟨m, hm, hm'.trans (congrArg Except.ok (ext_rows (hmcolumns'.trans hmcolumns.symm) hsame))⟩

theorem ofSparse_of_outOfRange (hcolumns : 0 < numColumns)
    (hrange : firstOutOfRange numColumns rows = some (row, column)) :
    ofSparse numColumns rows = .error (.columnOutOfRange row column numColumns) := by
  unfold ofSparse
  rw [dif_neg hcolumns.ne']
  split
  case h_1 hsome =>
    rw [hrange] at hsome
    cases hsome
    rfl
  case h_2 hnone =>
    rw [hrange] at hnone
    cases hnone

theorem ofSparse_nil (hcolumns : 0 < numColumns) : ofSparse numColumns [] = .error .noRows :=
  dif_neg hcolumns.ne'

/-- A listing of set columns is judged by its first column out of range, before its rows are counted. -/
theorem ofSparse_eq_iff : ofSparse numColumns rows = result ↔ ColumnsGive numColumns rows result := by
  constructor
  · rintro rfl
    rcases Nat.eq_zero_or_pos numColumns with rfl | hcolumns
    · exact .noColumns rfl
    cases hrange : firstOutOfRange numColumns rows with
    | some fault =>
      obtain ⟨row, column⟩ := fault
      rw [ofSparse_of_outOfRange hcolumns hrange]
      obtain ⟨columns, hrow, place, hcolumn⟩ := firstOutOfRange_eq_some_iff.1 hrange
      exact .outOfRange hcolumns hrow hcolumn
    | none =>
      by_cases hrows : rows = []
      · subst hrows
        rw [ofSparse_nil hcolumns]
        exact .noRows hcolumns rfl
      · have hlt := firstOutOfRange_eq_none_iff.1 hrange
        obtain ⟨m, hm, hdense⟩ := exists_ofSparse_eq_ok hcolumns hrows hlt
        rw [hm]
        exact .matrix hcolumns hrows hlt hdense
  · intro h
    cases h with
    | noColumns hzero => rw [hzero]; rfl
    | outOfRange hcolumns hrow hcolumn =>
      exact ofSparse_of_outOfRange hcolumns (firstOutOfRange_eq_some_iff.2 ⟨_, hrow, _, hcolumn⟩)
    | noRows hcolumns hrows => rw [hrows, ofSparse_nil hcolumns]
    | matrix hcolumns hrows hlt hdense =>
      obtain ⟨m, hm, hdense'⟩ := exists_ofSparse_eq_ok hcolumns hrows hlt
      rw [hm, ← hdense, hdense']

end Columns

section Ones

variable {m : Matrix} {row column : Nat} {ones : List Nat}

theorem mem_ones_iff (hones : m.ones? row = some ones) :
    column ∈ ones ↔ m.entry? row column = some true := by
  rw [entry?_eq_some_true_iff, isSet_iff, hones, Option.getD_some]

theorem ofSparse_rows (m : Matrix) : ofSparse m.numColumns m.rows = .ok m := by
  obtain ⟨m', hm', hcolumns, hrows⟩ := ofSparse_eq_ok m.numColumns_pos m.rows_ne_nil m.bounded
  have hsame : m'.rows = m.rows := by
    have hones : ∀ ones ∈ m.rows, ascend ones = ones := fun ones hmem =>
      (pairwise_ascend ones).eq_of_mem_iff (m.ascending ones hmem) fun _ => mem_ascend
    rw [hrows]
    exact (List.map_congr_left hones).trans (List.map_id _)
  rw [hm', ext_rows hcolumns hsame]

theorem map_ones?_range (m : Matrix) : (List.range m.numRows).map m.ones? = m.rows.map some := by
  apply List.ext_getElem
  · rw [List.length_map, List.length_map, List.length_range, numRows]
  · intro row hrow hrow'
    rw [List.getElem_map, List.getElem_map, List.getElem_range, ones?, List.getElem?_eq_getElem]

/-- However a matrix is listed, it is accepted exactly if it is well formed, with the first fault as
the error and the listed entries as the matrix; and a matrix is listed by its own set columns. -/
theorem listings_judged :
    (∀ rows result, ofBytes rows = result ↔ BytesGive rows result) ∧
    (∀ rows result, ofDense rows = result ↔ EntriesGive rows result) ∧
    (∀ numColumns rows result, ofSparse numColumns rows = result ↔ ColumnsGive numColumns rows result) ∧
    ∀ m : Matrix, ∃ lists : List (List Nat),
      (List.range m.numRows).map m.ones? = lists.map some ∧
      ofSparse m.numColumns lists = .ok m ∧
      (∀ ones ∈ lists, ones.Pairwise (· < ·)) ∧
      (∀ row ones, lists[row]? = some ones → ∀ column, column ∈ ones ↔ m.entry? row column = some true) ∧
      m.numOnes = (lists.map List.length).sum := by
  refine ⟨fun _ _ => ofBytes_eq_iff, fun _ _ => ofDense_eq_iff, fun _ _ _ => ofSparse_eq_iff, fun m => ?_⟩
  exact ⟨m.rows, map_ones?_range m, ofSparse_rows m, m.ascending,
    fun row ones hones column => mem_ones_iff hones, List.length_flatten⟩

end Ones

end Matrix

end ExactCover
