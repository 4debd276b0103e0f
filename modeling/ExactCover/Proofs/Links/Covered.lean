import ExactCover.Proofs.Links.Shows
import ExactCover.Proofs.Links.Struck
/-!
The links of a matrix after some of its columns have been covered, and what one more cover does to
them. A cover is taken back by the uncover of the same column, link for link and count for count.
-/

namespace ExactCover

namespace Links

variable {m : Matrix} {links links' : Links} {covered : List Nat} {column : Nat} {live : LiveRow}

/-- The arena of a matrix, whatever is covered: the tags of the nodes and the rows. -/
structure Laid (m : Matrix) (links : Links) : Prop where
  numColumns_eq : links.numColumns = m.numColumns
  numRows_eq : links.numRows = m.numRows
  frame : Frame m.rows links
  closed : links.Closed

namespace Laid

theorem numColumns_lt (h : Laid m links) : links.numColumns < links.size := by
  have := h.frame.size_eq
  omega

theorem header_lt (h : Laid m links) (hcolumn : column < m.numColumns) : column + 1 < links.size :=
  Nat.lt_of_le_of_lt hcolumn (h.numColumns_eq ▸ h.numColumns_lt)

theorem isHeader_eq (h : Laid m links) (hcolumn : column < m.numColumns) :
    links.isHeader (column + 1) = true := by
  have hle : column + 1 ≤ links.numColumns := h.numColumns_eq.symm ▸ hcolumn
  simp [isHeader, root, hle]

theorem place_lt (h : Laid m links) (hlive : live ∈ liveRows m.rows) (hcolumn : column ∈ live.ones) :
    m.place column live < links.size := by
  rw [h.frame.size_eq, h.numColumns_eq]
  exact cellAt_lt (mem_liveRows.1 hlive) hcolumn

theorem header_place (h : Laid m links) (hlive : live ∈ liveRows m.rows)
    (hcolumn : column ∈ live.ones) : links.header (m.place column live) = column + 1 := by
  have := h.frame.header_cell live.row live.ones (mem_liveRows.1 hlive) column hcolumn
  rwa [h.numColumns_eq] at this

theorem row_place (h : Laid m links) (hlive : live ∈ liveRows m.rows)
    (hcolumn : column ∈ live.ones) : links.row (m.place column live) = some live.row := by
  have := h.frame.row_cell live.row live.ones (mem_liveRows.1 hlive) column hcolumn
  rwa [h.numColumns_eq] at this

theorem row_loop (h : Laid m links) (hlive : live ∈ liveRows m.rows)
    (hcolumn : column ∈ live.ones) :
    Loop links.right links.left (m.place column live) (m.beside column live) := by
  have := h.frame.others_loop (mem_liveRows.1 hlive) (Matrix.ascending_of_mem hlive) hcolumn
  rwa [h.numColumns_eq] at this

theorem beside_lt (h : Laid m links) (hlive : live ∈ liveRows m.rows) :
    ∀ cell ∈ m.beside column live, cell < links.size := by
  intro cell hcell
  obtain ⟨other, hother, rfl⟩ := List.mem_map.1 hcell
  exact h.place_lt hlive (Remainder.mem_others.1 hother).1

theorem length_candidates_le (h : Laid m links) (covered : List Nat) (column : Nat) :
    ((m.remainder covered).candidates column).length ≤ links.size := by
  have hnodup : (((m.remainder covered).candidates column).map (m.place column)).Nodup := by
    refine (Matrix.nodup_candidates covered column).map_on fun live hlive other hother heq => ?_
    obtain ⟨hmem, -, hones⟩ := Matrix.mem_candidates_remainder.1 hlive
    obtain ⟨hmem', -, hones'⟩ := Matrix.mem_candidates_remainder.1 hother
    exact (Matrix.place_inj hmem hones hmem' hones' heq).1
  have hlt : ∀ cell ∈ ((m.remainder covered).candidates column).map (m.place column),
      cell < links.size := by
    intro cell hcell
    obtain ⟨live, hlive, rfl⟩ := List.mem_map.1 hcell
    obtain ⟨hmem, -, hones⟩ := Matrix.mem_candidates_remainder.1 hlive
    exact h.place_lt hmem hones
  simpa using length_le_of_forall_lt hnodup hlt

theorem struck_cell (h : Laid m links) {cell : Nat} (hcell : cell ∈ m.struckCells covered column) :
    cell < links.size ∧ links.header cell ≠ column + 1 := by
  obtain ⟨live, hlive, other, hones, hne, rfl⟩ := Matrix.exists_of_mem_struckCells hcell
  have hmem := (Matrix.mem_candidates_remainder.1 hlive).1
  refine ⟨h.place_lt hmem hones, ?_⟩
  rw [h.header_place hmem hones]
  omega

theorem exists_mem_cellsLeft (h : Laid m links) {cell : Nat}
    (hcell : cell ∈ m.struckCells covered column) :
    ∃ other < links.numColumns, cell ∈ m.cellsLeft covered other := by
  obtain ⟨live, hlive, other, hones, -, rfl⟩ := Matrix.exists_of_mem_struckCells hcell
  obtain ⟨hrow, havoids, -⟩ := Matrix.mem_candidates_remainder.1 hlive
  refine ⟨other, h.numColumns_eq.symm ▸ Matrix.bounded_of_mem hrow hones, ?_⟩
  rw [Matrix.cellsLeft_of_not_mem fun hother => havoids other hother hones]
  exact List.mem_map_of_mem (Matrix.mem_candidates_remainder.2 ⟨hrow, havoids, hones⟩)

theorem keeps_beside (h : Laid m links) {change : Links → Nat → Except Fault Links}
    (hchange : Local change) (covered : List Nat) (column : Nat) :
    ∀ l, l.Closed ∧ Beside (column + 1) links l → ∀ cell ∈ m.struckCells covered column,
      ∀ l', change l cell = .ok l' → l'.Closed ∧ Beside (column + 1) links l' := by
  rintro l ⟨hclosed, hbeside⟩ cell hcell l' hl'
  obtain ⟨hlt, hheader⟩ := h.struck_cell hcell
  rw [← hbeside.rows.size_eq] at hlt
  rw [← hbeside.rows.header_eq] at hheader
  obtain ⟨hclosed', hother⟩ := hchange l cell l' hclosed hlt hl'
  exact ⟨hclosed', hbeside.trans (hother (column + 1) hheader)⟩

theorem of_sameRows (h : Laid m links) (hsame : SameRows links links') (hclosed : links'.Closed) :
    Laid m links' where
  numColumns_eq := hsame.numColumns_eq.trans h.numColumns_eq
  numRows_eq := hsame.numRows_eq.trans h.numRows_eq
  frame := h.frame.congr hsame.toSameTags (fun id _ => hsame.left_eq id) fun id _ => hsame.right_eq id
  closed := hclosed

theorem relaid (h : Laid m links) {header toRight toLeft : Nat} (hheader : header < links.size)
    (hleft : links.left header ≤ links.numColumns) (hright : links.right header ≤ links.numColumns)
    (htoRight : toRight < links.size) (htoLeft : toLeft < links.size) :
    Laid m (links.relaid header toRight toLeft) := by
  refine ⟨h.numColumns_eq, h.numRows_eq, h.frame.congr (sameTags_relaid h.closed hheader) ?_ ?_,
    closed_relaid h.closed hheader htoRight htoLeft⟩
  · intro id hid
    exact (left_relaid h.closed hheader id).trans (if_neg (by omega))
  · intro id hid
    exact (right_relaid h.closed hheader id).trans (if_neg (by omega))

end Laid

/-- The links of a matrix once the listed columns have been covered, in this order. -/
structure Covered (m : Matrix) (covered : List Nat) (links : Links) : Prop extends Laid m links where
  headers : Loop links.right links.left root ((m.remainder covered).columns.map (· + 1))
  threaded : Threaded (m.cellsLeft covered) links

theorem covered_ofMatrix (m : Matrix) : Covered m [] (ofMatrix m) := by
  obtain ⟨hshows, hcolumns, hrows⟩ := shows_ofMatrix m
  refine ⟨⟨hcolumns, hrows, hshows.frame, hshows.closed⟩, ?_, hshows.threaded.congr ?_⟩
  · have hheaders := hshows.headers
    rw [hcolumns] at hheaders
    rwa [Matrix.remainder_nil]
  · intro column _
    rw [Matrix.cellsLeft_of_not_mem List.not_mem_nil, Matrix.remainder_nil, hcolumns]
    rfl

theorem Course.of_loops {vertical horizontal : Node → Nat} (back backwards : Nat → Nat)
    {rows : List LiveRow} {place : LiveRow → Nat} {cells : LiveRow → List Nat}
    (hcolumn : Loop (fun id => vertical (links.get id)) back column (rows.map place))
    (hrow : ∀ row ∈ rows,
      Loop (fun id => horizontal (links.get id)) backwards (place row) (cells row))
    (hplace : ∀ row ∈ rows, place row < links.size)
    (hcells : ∀ row ∈ rows, ∀ cell ∈ cells row, cell < links.size) :
    Course vertical horizontal place cells column column rows links where
  leads := hcolumn.leads
  row_ne := fun _ hmem => hcolumn.ne_start (List.mem_map_of_mem hmem)
  row_lt := hplace
  row_leads := fun row hmem => (hrow row hmem).leads
  row_nodup := fun row hmem => (hrow row hmem).nodup
  cell_lt := hcells

section Sweep

variable (h : Laid m links) (hthreaded : Threaded (m.cellsLeft covered) links)
  (hcolumn : column < m.numColumns) (hfresh : column ∉ covered)
include h hthreaded hcolumn hfresh

theorem column_loop (hbeside : Beside (column + 1) links links') :
    Loop links'.down links'.up (column + 1)
      (((m.remainder covered).candidates column).map (m.place column)) := by
  have hlt : column < links.numColumns := h.numColumns_eq.symm ▸ hcolumn
  have hloop := hthreaded.loop column hlt
  rw [← Matrix.cellsLeft_of_not_mem hfresh]
  exact hloop.congr (fun id hid => hbeside.down_eq id (hthreaded.header_of_mem hlt hid))
    (fun id hid => hbeside.up_eq id (hthreaded.header_of_mem hlt hid))

theorem course_down (hbeside : Beside (column + 1) links links') :
    Course Node.down Node.right (m.place column) (m.beside column) (column + 1) (column + 1)
      ((m.remainder covered).candidates column) links' := by
  refine .of_loops links'.up links'.left (column_loop h hthreaded hcolumn hfresh hbeside)
    (fun live hlive => ?_) (fun live hlive => ?_) fun live hlive => ?_
  all_goals obtain ⟨hmem, -, hones⟩ := Matrix.mem_candidates_remainder.1 hlive
  · exact (h.row_loop hmem hones).congr (fun id _ => hbeside.rows.right_eq id)
      fun id _ => hbeside.rows.left_eq id
  · rw [hbeside.rows.size_eq]
    exact h.place_lt hmem hones
  · rw [hbeside.rows.size_eq]
    exact h.beside_lt hmem

theorem course_up (hbeside : Beside (column + 1) links links') :
    Course Node.up Node.left (m.place column) (List.reverse ∘ m.beside column) (column + 1)
      (column + 1) ((m.remainder covered).candidates column).reverse links' := by
  have hloop := (column_loop h hthreaded hcolumn hfresh hbeside).symm
  rw [← List.map_reverse] at hloop
  refine .of_loops links'.down links'.right hloop (fun live hlive => ?_)
    (fun live hlive => ?_) fun live hlive => ?_
  all_goals obtain ⟨hmem, -, hones⟩ :=
    Matrix.mem_candidates_remainder.1 (List.mem_reverse.1 hlive)
  · exact ((h.row_loop hmem hones).congr (fun id _ => hbeside.rows.right_eq id)
      fun id _ => hbeside.rows.left_eq id).symm
  · rw [hbeside.rows.size_eq]
    exact h.place_lt hmem hones
  · rw [hbeside.rows.size_eq]
    exact fun cell hcell => h.beside_lt hmem cell (List.mem_reverse.1 hcell)

/-- Taking out, and putting back, the cells beside the candidates of a column. -/
theorem sweep_candidates : ∃ swept changed,
    sweepColumn Node.down Node.right unlink (column + 1) links.size (links.down (column + 1)) 1
      links = .ok (swept, (m.remainder covered).cost column) ∧
    swept.Closed ∧ SameRows links swept ∧ Threaded (m.cellsLeft (covered ++ [column])) swept ∧
    sweepColumn Node.up Node.left relink (column + 1) swept.size (swept.up (column + 1)) 0 swept =
      .ok (links, changed) := by
  obtain ⟨swept, hfold, hclosed, hsame, hstruck, hback⟩ :=
    hthreaded.foldlM_unlink h.closed (Matrix.nodup_struckCells m covered column)
      fun _ => h.exists_mem_cellsLeft
  -- Both ways keep the swept column and all rows, so neither loses its course.
  have hunlink := h.keeps_beside local_unlink covered column
  have hrelink := h.keeps_beside local_relink covered column
  have hstart : links.Closed ∧ Beside (column + 1) links links := ⟨h.closed, .refl _ _⟩
  have hswept : swept.Closed ∧ Beside (column + 1) links swept := foldlM_keeps hunlink hstart hfold
  have hcount := h.length_candidates_le covered column
  have hreverse : ((m.remainder covered).candidates column).reverse.flatMap
      (List.reverse ∘ m.beside column) = (m.struckCells covered column).reverse :=
    List.reverse_flatMap.symm
  have hdown := sweepColumn_eq hunlink
    (fun l hl => course_down h hthreaded hcolumn hfresh hl.2) hstart hcount 1
  have hup := sweepColumn_eq (P := fun l => l.Closed ∧ Beside (column + 1) links l)
    (fun l hl cell hcell => hrelink l hl cell (by rwa [hreverse, List.mem_reverse] at hcell))
    (fun l hl => course_up h hthreaded hcolumn hfresh hl.2) hswept
    (hsame.size_eq.symm ▸ List.length_reverse.trans_le hcount) 0
  rw [show ((m.remainder covered).candidates column).flatMap (m.beside column) =
    m.struckCells covered column from rfl, hfold, ok_bind, ← m.cost_eq] at hdown
  rw [hreverse, hback, ok_bind] at hup
  refine ⟨swept, _, hdown, hclosed, hsame, hstruck.congr fun other _ => ?_, hup⟩
  exact (Matrix.filter_cellsLeft hfresh other).symm

end Sweep

theorem fresh_concat {columns : List Nat} (hnodup : (column :: columns).Nodup)
    (hfresh : ∀ c ∈ column :: columns, c ∉ covered) : ∀ c ∈ columns, c ∉ covered ++ [column] := by
  intro c hc hmem
  rcases List.mem_append.1 hmem with hmem | hmem
  · exact hfresh c (List.mem_cons_of_mem column hc) hmem
  · exact (List.nodup_cons.1 hnodup).1 (List.mem_singleton.1 hmem ▸ hc)

theorem mem_headers_remainder (hcolumn : column < m.numColumns) (hfresh : column ∉ covered) :
    column + 1 ∈ (m.remainder covered).columns.map (· + 1) :=
  List.mem_map_of_mem (Matrix.mem_columns_remainder.2 ⟨hcolumn, hfresh⟩)

namespace Covered

theorem le_numColumns (h : Covered m covered links) {id : Nat}
    (hid : id ∈ root :: (m.remainder covered).columns.map (· + 1)) : id ≤ links.numColumns := by
  rw [h.numColumns_eq]
  rcases List.mem_cons.1 hid with rfl | hid
  · exact Nat.zero_le _
  · obtain ⟨column, hcolumn, rfl⟩ := List.mem_map.1 hid
    exact (Matrix.mem_columns_remainder.1 hcolumn).1

section Hidden

variable (h : Covered m covered links) (hcolumn : column < m.numColumns) (hfresh : column ∉ covered)
include h hcolumn hfresh

theorem laid_hidden : Laid m (links.hidden (column + 1)) := by
  have hlt := h.header_lt hcolumn
  have hmem := List.mem_cons_of_mem root (mem_headers_remainder hcolumn hfresh)
  have hleft := h.le_numColumns (h.headers.prev_mem hmem)
  have hright := h.le_numColumns (h.headers.next_mem hmem)
  exact h.relaid hlt hleft hright (h.closed.right_lt _ hlt) (h.closed.left_lt _ hlt)

theorem headers_hidden : Loop (links.hidden (column + 1)).right (links.hidden (column + 1)).left root
    ((m.remainder (covered ++ [column])).columns.map (· + 1)) := by
  have hlt := h.header_lt hcolumn
  have hactive := Matrix.mem_columns_remainder.2 ⟨hcolumn, hfresh⟩
  have hloop := h.headers
  obtain ⟨before, after, hsplit⟩ := List.append_of_mem hactive
  have hnodup := (Matrix.nodup_columns m covered)
  rw [hsplit] at hloop hnodup
  rw [Matrix.columns_concat, hsplit, filter_ne_middle hnodup, List.map_append]
  rw [List.map_append, List.map_cons] at hloop
  exact hloop.remove (fun id _ => right_relaid h.closed hlt id)
    (fun id _ => left_relaid h.closed hlt id)

omit hfresh in
theorem threaded_hidden : Threaded (m.cellsLeft covered) (links.hidden (column + 1)) := by
  have hlt := h.header_lt hcolumn
  refine h.threaded.of_sameColumns ⟨sameTags_relaid h.closed hlt, rfl, ?_, ?_⟩
  · intro id
    rw [hidden, up, get_relaid h.closed hlt, up]
  · intro id
    rw [hidden, down, get_relaid h.closed hlt, down]

theorem showHeader_hidden : (links.hidden (column + 1)).showHeader (column + 1) = .ok links := by
  have hlt := h.header_lt hcolumn
  have hmem := mem_headers_remainder hcolumn hfresh
  have hmem' := List.mem_cons_of_mem root hmem
  have hlaid := laid_hidden h hcolumn hfresh
  rw [showHeader_eq hlaid.closed (hlaid.header_lt hcolumn),
    shown_hidden h.closed hlt (h.headers.next_prev hmem') (h.headers.prev_next _ hmem')
      (h.headers.symm.next_ne (List.mem_reverse.2 hmem)) (h.headers.next_ne hmem)]

end Hidden

/-- A column that is not covered yet can be covered, at the cost of striking it out, and its uncover
gives the links back as they were. -/
theorem cover (h : Covered m covered links) (hcolumn : column < m.numColumns)
    (hfresh : column ∉ covered) :
    ∃ links', links.cover (column + 1) = .ok (links', (m.remainder covered).cost column) ∧
      Covered m (covered ++ [column]) links' ∧ links'.uncover (column + 1) = .ok links := by
  have hlt := h.header_lt hcolumn
  have hlaid := laid_hidden h hcolumn hfresh
  obtain ⟨swept, changed, hdown, hclosed, hsame, hthreaded, hup⟩ :=
    sweep_candidates hlaid (threaded_hidden h hcolumn) hcolumn hfresh
  have hswept : Laid m swept := hlaid.of_sameRows hsame hclosed
  refine ⟨swept, ?_, ⟨hswept, ?_, hthreaded⟩, ?_⟩
  · rw [Links.cover, h.isHeader_eq hcolumn, hideHeader_eq h.closed hlt]
    simp only [Bool.not_true, Bool.false_eq_true, if_false, ok_bind]
    rw [node_eq_ok (hlaid.header_lt hcolumn), ok_bind]
    exact hdown
  · exact (headers_hidden h hcolumn hfresh).congr (fun id _ => hsame.right_eq id)
      fun id _ => hsame.left_eq id
  · rw [Links.uncover, hswept.isHeader_eq hcolumn]
    simp only [Bool.not_true, Bool.false_eq_true, if_false]
    rw [node_eq_ok (hswept.header_lt hcolumn), ok_bind]
    rw [show (swept.get (column + 1)).up = swept.up (column + 1) from rfl, hup, ok_bind]
    exact showHeader_hidden h hcolumn hfresh

end Covered

def coverEach (links : Links) (columns : List Nat) : Except Fault Links :=
  columns.foldlM (fun links column => do
    let (links, _) ← links.cover (column + 1)
    return links) links

namespace Covered

theorem coverEach (h : Covered m covered links) {columns : List Nat} (hnodup : columns.Nodup)
    (hlt : ∀ column ∈ columns, column < m.numColumns) (hfresh : ∀ column ∈ columns, column ∉ covered) :
    ∃ links', links.coverEach columns = .ok links' ∧ Covered m (covered ++ columns) links' := by
  induction columns generalizing covered links with
  | nil => exact ⟨links, rfl, (List.append_nil covered).symm ▸ h⟩
  | cons column columns ih =>
    obtain ⟨next, hcover, hnext, -⟩ :=
      h.cover (hlt column List.mem_cons_self) (hfresh column List.mem_cons_self)
    obtain ⟨links', hrest, hcovered⟩ := ih hnext hnodup.of_cons
      (fun c hc => hlt c (List.mem_cons_of_mem column hc)) (fresh_concat hnodup hfresh)
    refine ⟨links', ?_, ?_⟩
    · rw [Links.coverEach, List.foldlM_cons, hcover]
      exact hrest
    · rwa [List.append_assoc, List.singleton_append] at hcovered

end Covered

theorem exists_coverEach (m : Matrix) {columns : List Nat} (hnodup : columns.Nodup)
    (hlt : ∀ column ∈ columns, column < m.numColumns) :
    ∃ links, (ofMatrix m).coverEach columns = .ok links ∧ Covered m columns links :=
  (covered_ofMatrix m).coverEach hnodup hlt fun _ _ => List.not_mem_nil

end Links

end ExactCover
