import ExactCover.Proofs.Links.Access
/-!
What taking a node out of a list and putting it back does to the links. Each change redirects the
two neighbours that the node names, and putting a node back undoes taking it out as long as those
neighbours name the node in turn.
-/

namespace ExactCover

namespace Links

variable {links links₁ links₂ links₃ : Links} {cell header toDown toUp toRight toLeft id : Nat}
  {change : Nat → Nat}

/-- The vertical neighbours of a cell redirected, and the count of its column changed. -/
def rejoined (links : Links) (cell toDown toUp : Nat) (change : Nat → Nat) : Links :=
  { (links.update (links.up cell) fun above => { above with down := toDown }).update
      (links.down cell) fun below => { below with up := toUp } with
    counts := links.counts.modify (links.header cell) change }

/-- The structure after a cell has left its column. -/
def unlinked (links : Links) (cell : Nat) : Links :=
  links.rejoined cell (links.down cell) (links.up cell) (· - 1)

def relinked (links : Links) (cell : Nat) : Links := links.rejoined cell cell cell (· + 1)

def relaid (links : Links) (header toRight toLeft : Nat) : Links :=
  (links.update (links.left header) fun before => { before with right := toRight }).update
    (links.right header) fun after => { after with left := toLeft }

/-- The structure after a header has left the header list. -/
def hidden (links : Links) (header : Nat) : Links :=
  links.relaid header (links.right header) (links.left header)

def shown (links : Links) (header : Nat) : Links := links.relaid header header header

/-- No link leads out of the arena, and no vertical one out of its column. -/
structure Closed (links : Links) : Prop where
  left_lt : ∀ id < links.size, links.left id < links.size
  right_lt : ∀ id < links.size, links.right id < links.size
  up_lt : ∀ id < links.size, links.up id < links.size
  down_lt : ∀ id < links.size, links.down id < links.size
  header_up : ∀ id, links.header (links.up id) = links.header id
  header_down : ∀ id, links.header (links.down id) = links.header id

structure SameTags (links links' : Links) : Prop where
  size_eq : links'.size = links.size
  counts_size_eq : links'.counts.size = links.counts.size
  numColumns_eq : links'.numColumns = links.numColumns
  numRows_eq : links'.numRows = links.numRows
  header_eq : ∀ id, links'.header id = links.header id
  row_eq : ∀ id, links'.row id = links.row id

/-- The same tags, and every horizontal list as before. -/
structure SameRows (links links' : Links) : Prop extends SameTags links links' where
  left_eq : ∀ id, links'.left id = links.left id
  right_eq : ∀ id, links'.right id = links.right id

/-- The same nodes and columns; the horizontal lists may differ. -/
structure SameColumns (links links' : Links) : Prop extends SameTags links links' where
  counts_eq : links'.counts = links.counts
  up_eq : ∀ id, links'.up id = links.up id
  down_eq : ∀ id, links'.down id = links.down id

theorem SameTags.trans (h : SameTags links₁ links₂) (h' : SameTags links₂ links₃) :
    SameTags links₁ links₃ where
  size_eq := h'.size_eq.trans h.size_eq
  counts_size_eq := h'.counts_size_eq.trans h.counts_size_eq
  numColumns_eq := h'.numColumns_eq.trans h.numColumns_eq
  numRows_eq := h'.numRows_eq.trans h.numRows_eq
  header_eq := fun id => (h'.header_eq id).trans (h.header_eq id)
  row_eq := fun id => (h'.row_eq id).trans (h.row_eq id)

theorem SameRows.refl (links : Links) : SameRows links links :=
  ⟨⟨rfl, rfl, rfl, rfl, fun _ => rfl, fun _ => rfl⟩, fun _ => rfl, fun _ => rfl⟩

theorem SameRows.trans (h : SameRows links₁ links₂) (h' : SameRows links₂ links₃) :
    SameRows links₁ links₃ where
  toSameTags := h.toSameTags.trans h'.toSameTags
  left_eq := fun id => (h'.left_eq id).trans (h.left_eq id)
  right_eq := fun id => (h'.right_eq id).trans (h.right_eq id)

/-- The same rows, and one column linked as before. -/
structure Beside (column : Nat) (links links' : Links) : Prop where
  rows : SameRows links links'
  up_eq : ∀ id, links.header id = column → links'.up id = links.up id
  down_eq : ∀ id, links.header id = column → links'.down id = links.down id

theorem Beside.refl (column : Nat) (links : Links) : Beside column links links :=
  ⟨.refl links, fun _ _ => rfl, fun _ _ => rfl⟩

theorem Beside.trans {column : Nat} (h : Beside column links₁ links₂)
    (h' : Beside column links₂ links₃) : Beside column links₁ links₃ where
  rows := h.rows.trans h'.rows
  up_eq := fun id hid => (h'.up_eq id (h.rows.header_eq id ▸ hid)).trans (h.up_eq id hid)
  down_eq := fun id hid => (h'.down_eq id (h.rows.header_eq id ▸ hid)).trans (h.down_eq id hid)

theorem redirect_back {f : Nat → Nat} {place value other : Nat} (h : f place = value) :
    (if id = place then value else if id = place then other else f id) = f id := by
  split
  case isTrue heq => rw [heq, h]
  case isFalse => rfl

section Vertical

variable (hclosed : links.Closed) (hcell : cell < links.size)
include hclosed hcell

theorem get_rejoined (id : Nat) :
    (links.rejoined cell toDown toUp change).get id = { links.get id with
      down := if id = links.up cell then toDown else links.down id
      up := if id = links.down cell then toUp else links.up id } := by
  have hup := hclosed.up_lt cell hcell
  have hdown := hclosed.down_lt cell hcell
  change ((links.update _ _).update _ _).get id = _
  rw [get_update (by simpa using hdown), get_update hup]
  split <;> split <;> simp_all [up, down]

theorem down_rejoined (id : Nat) : (links.rejoined cell toDown toUp change).down id =
    if id = links.up cell then toDown else links.down id := by
  rw [down, get_rejoined hclosed hcell]

theorem up_rejoined (id : Nat) : (links.rejoined cell toDown toUp change).up id =
    if id = links.down cell then toUp else links.up id := by
  rw [up, get_rejoined hclosed hcell]

theorem sameRows_rejoined : SameRows links (links.rejoined cell toDown toUp change) := by
  have hget := @get_rejoined _ _ toDown toUp change hclosed hcell
  refine ⟨⟨?_, ?_, rfl, rfl, ?_, ?_⟩, ?_, ?_⟩
  · simp [rejoined, update, size]
  · simp [rejoined]
  all_goals
    intro id
    simp only [Links.header, row, left, right, hget]

theorem closed_rejoined (hdown : toDown < links.size) (hup : toUp < links.size)
    (hheader : links.header toDown = links.header cell)
    (hheader' : links.header toUp = links.header cell) :
    (links.rejoined cell toDown toUp change).Closed := by
  have hsame := @sameRows_rejoined _ _ toDown toUp change hclosed hcell
  have hget := @get_rejoined _ _ toDown toUp change hclosed hcell
  refine ⟨?_, ?_, ?_, ?_, ?_, ?_⟩
  · intro id hid
    rw [hsame.size_eq] at hid ⊢
    simpa only [left, hget] using hclosed.left_lt id hid
  · intro id hid
    rw [hsame.size_eq] at hid ⊢
    simpa only [right, hget] using hclosed.right_lt id hid
  · intro id hid
    rw [hsame.size_eq] at hid ⊢
    rw [up_rejoined hclosed hcell]
    split
    · exact hup
    · exact hclosed.up_lt id hid
  · intro id hid
    rw [hsame.size_eq] at hid ⊢
    rw [down_rejoined hclosed hcell]
    split
    · exact hdown
    · exact hclosed.down_lt id hid
  · intro id
    rw [hsame.header_eq, hsame.header_eq, up_rejoined hclosed hcell]
    split
    case isTrue h => rw [h, hheader', hclosed.header_down]
    case isFalse => exact hclosed.header_up id
  · intro id
    rw [hsame.header_eq, hsame.header_eq, down_rejoined hclosed hcell]
    split
    case isTrue h => rw [h, hheader, hclosed.header_up]
    case isFalse => exact hclosed.header_down id

theorem beside_rejoined {column : Nat} (hcolumn : links.header cell ≠ column) :
    Beside column links (links.rejoined cell toDown toUp change) := by
  refine ⟨sameRows_rejoined hclosed hcell, ?_, ?_⟩
  · intro id hid
    rw [up_rejoined hclosed hcell, if_neg]
    rintro rfl
    exact hcolumn ((hclosed.header_down cell).symm.trans hid)
  · intro id hid
    rw [down_rejoined hclosed hcell, if_neg]
    rintro rfl
    exact hcolumn ((hclosed.header_up cell).symm.trans hid)

theorem closed_unlinked : (links.unlinked cell).Closed :=
  closed_rejoined hclosed hcell (hclosed.down_lt cell hcell) (hclosed.up_lt cell hcell)
    (hclosed.header_down cell) (hclosed.header_up cell)

theorem closed_relinked : (links.relinked cell).Closed :=
  closed_rejoined hclosed hcell hcell hcell rfl rfl

theorem unlink_eq_decreaseCount : links.unlink cell =
    decreaseCount { links.unlinked cell with counts := links.counts } (links.header cell) := by
  have hup : (links.get cell).up < links.size := hclosed.up_lt cell hcell
  have hdown : (links.get cell).down < links.size := hclosed.down_lt cell hcell
  rw [unlink, node_eq_ok hcell, ok_bind, modifyNode_bind hup, modifyNode_bind]
  · rfl
  · rw [size_update]
    exact hdown

theorem relink_eq_increaseCount : links.relink cell =
    increaseCount { links.relinked cell with counts := links.counts } (links.header cell) := by
  have hup : (links.get cell).up < links.size := hclosed.up_lt cell hcell
  have hdown : (links.get cell).down < links.size := hclosed.down_lt cell hcell
  rw [relink, node_eq_ok hcell, ok_bind, modifyNode_bind hup, modifyNode_bind]
  · rfl
  · rw [size_update]
    exact hdown

theorem unlink_eq {count : Nat} (hcount : links.counts[links.header cell]? = some (count + 1)) :
    links.unlink cell = .ok (links.unlinked cell) :=
  (unlink_eq_decreaseCount hclosed hcell).trans (decreaseCount_eq hcount)

theorem relink_eq {count : Nat} (hcount : links.counts[links.header cell]? = some count)
    (hlimit : count < links.size) : links.relink cell = .ok (links.relinked cell) := by
  have hsame : SameRows links (links.relinked cell) := sameRows_rejoined hclosed hcell
  exact (relink_eq_increaseCount hclosed hcell).trans
    (increaseCount_eq hcount (hsame.size_eq.symm ▸ hlimit))

theorem eq_unlinked (h : links.unlink cell = .ok links₁) : links₁ = links.unlinked cell := by
  rw [unlink_eq_decreaseCount hclosed hcell] at h
  exact eq_of_decreaseCount h

theorem eq_relinked (h : links.relink cell = .ok links₁) : links₁ = links.relinked cell := by
  rw [relink_eq_increaseCount hclosed hcell] at h
  exact eq_of_increaseCount h

/-- A cell comes back to where it was: its neighbours still name each other in its place. -/
theorem relinked_unlinked {count : Nat}
    (hcount : links.counts[links.header cell]? = some (count + 1))
    (hup : links.down (links.up cell) = cell) (hdown : links.up (links.down cell) = cell)
    (hup_ne : links.up cell ≠ cell) (hdown_ne : links.down cell ≠ cell) :
    (links.unlinked cell).relinked cell = links := by
  have hsame : SameRows links (links.unlinked cell) := sameRows_rejoined hclosed hcell
  have hclosed' : (links.unlinked cell).Closed := closed_unlinked hclosed hcell
  have hcell' : cell < (links.unlinked cell).size := hsame.size_eq.symm ▸ hcell
  have hup_same : (links.unlinked cell).up cell = links.up cell :=
    (up_rejoined hclosed hcell cell).trans (if_neg hdown_ne.symm)
  have hdown_same : (links.unlinked cell).down cell = links.down cell :=
    (down_rejoined hclosed hcell cell).trans (if_neg hup_ne.symm)
  have hback : SameRows (links.unlinked cell) ((links.unlinked cell).relinked cell) :=
    sameRows_rejoined hclosed' hcell'
  refine ext_get (hback.size_eq.trans hsame.size_eq) ?_ ?_
    (hback.numColumns_eq.trans hsame.numColumns_eq) (hback.numRows_eq.trans hsame.numRows_eq)
  · intro id _
    rw [relinked, get_rejoined hclosed' hcell', hup_same, hdown_same, unlinked,
      get_rejoined hclosed hcell, down_rejoined hclosed hcell, up_rejoined hclosed hcell,
      redirect_back hup, redirect_back hdown]
    rfl
  · change (links.counts.modify _ _).modify ((links.unlinked cell).header cell) _ = _
    rw [hsame.header_eq]
    apply Array.ext_getElem?
    intro column
    by_cases hcolumn : links.header cell = column
    · subst hcolumn
      simp [Array.getElem?_modify, hcount]
    · simp [Array.getElem?_modify, hcolumn]

end Vertical

/-- A change around one cell that leads nowhere out of the arena and leaves the other columns. -/
def Local (change : Links → Nat → Except Fault Links) : Prop :=
  ∀ links cell links', links.Closed → cell < links.size → change links cell = .ok links' →
    links'.Closed ∧ ∀ column, links.header cell ≠ column → Beside column links links'

theorem local_unlink : Local unlink := by
  intro links cell links' hclosed hcell h
  rw [eq_unlinked hclosed hcell h]
  exact ⟨closed_unlinked hclosed hcell, fun _ => beside_rejoined hclosed hcell⟩

theorem local_relink : Local relink := by
  intro links cell links' hclosed hcell h
  rw [eq_relinked hclosed hcell h]
  exact ⟨closed_relinked hclosed hcell, fun _ => beside_rejoined hclosed hcell⟩

@[simp] theorem counts_relaid : (links.relaid header toRight toLeft).counts = links.counts := rfl

section Horizontal

variable (hclosed : links.Closed) (hheader : header < links.size)
include hclosed hheader

theorem get_relaid (id : Nat) : (links.relaid header toRight toLeft).get id = { links.get id with
    right := if id = links.left header then toRight else links.right id
    left := if id = links.right header then toLeft else links.left id } := by
  have hleft := hclosed.left_lt header hheader
  have hright := hclosed.right_lt header hheader
  rw [relaid, get_update (by simpa using hright), get_update hleft]
  split <;> split <;> simp_all [left, right]

theorem right_relaid (id : Nat) : (links.relaid header toRight toLeft).right id =
    if id = links.left header then toRight else links.right id := by
  rw [right, get_relaid hclosed hheader]

theorem left_relaid (id : Nat) : (links.relaid header toRight toLeft).left id =
    if id = links.right header then toLeft else links.left id := by
  rw [left, get_relaid hclosed hheader]

theorem sameTags_relaid : SameTags links (links.relaid header toRight toLeft) := by
  have hget := @get_relaid _ _ toRight toLeft hclosed hheader
  refine ⟨by simp [relaid], rfl, rfl, rfl, ?_, ?_⟩
  all_goals
    intro id
    simp only [Links.header, row, hget]

theorem closed_relaid (hright : toRight < links.size) (hleft : toLeft < links.size) :
    (links.relaid header toRight toLeft).Closed := by
  have hget := @get_relaid _ _ toRight toLeft hclosed hheader
  have hsize : (links.relaid header toRight toLeft).size = links.size := by simp [relaid]
  refine ⟨?_, ?_, ?_, ?_, ?_, ?_⟩
  · intro id hid
    rw [hsize] at hid ⊢
    rw [left_relaid hclosed hheader]
    split
    · exact hleft
    · exact hclosed.left_lt id hid
  · intro id hid
    rw [hsize] at hid ⊢
    rw [right_relaid hclosed hheader]
    split
    · exact hright
    · exact hclosed.right_lt id hid
  · intro id hid
    rw [hsize] at hid ⊢
    simpa only [up, hget] using hclosed.up_lt id hid
  · intro id hid
    rw [hsize] at hid ⊢
    simpa only [down, hget] using hclosed.down_lt id hid
  · intro id
    simpa only [Links.header, up, hget] using hclosed.header_up id
  · intro id
    simpa only [Links.header, down, hget] using hclosed.header_down id

theorem closed_hidden : (links.hidden header).Closed :=
  closed_relaid hclosed hheader (hclosed.right_lt header hheader) (hclosed.left_lt header hheader)

theorem hideHeader_eq : links.hideHeader header = .ok (links.hidden header) := by
  have hleft : (links.get header).left < links.size := hclosed.left_lt header hheader
  have hright : (links.get header).right < links.size := hclosed.right_lt header hheader
  rw [hideHeader, node_eq_ok hheader, ok_bind, modifyNode_bind hleft, modifyNode_eq]
  · rfl
  · rw [size_update]
    exact hright

theorem showHeader_eq : links.showHeader header = .ok (links.shown header) := by
  have hleft : (links.get header).left < links.size := hclosed.left_lt header hheader
  have hright : (links.get header).right < links.size := hclosed.right_lt header hheader
  rw [showHeader, node_eq_ok hheader, ok_bind, modifyNode_bind hleft, modifyNode_eq]
  · rfl
  · rw [size_update]
    exact hright

theorem shown_hidden (hleft : links.right (links.left header) = header)
    (hright : links.left (links.right header) = header)
    (hleft_ne : links.left header ≠ header) (hright_ne : links.right header ≠ header) :
    (links.hidden header).shown header = links := by
  have hclosed' : (links.hidden header).Closed := closed_hidden hclosed hheader
  have hsame : SameTags links (links.hidden header) := sameTags_relaid hclosed hheader
  have hheader' : header < (links.hidden header).size := hsame.size_eq.symm ▸ hheader
  have hleft_same : (links.hidden header).left header = links.left header :=
    (left_relaid hclosed hheader header).trans (if_neg hright_ne.symm)
  have hright_same : (links.hidden header).right header = links.right header :=
    (right_relaid hclosed hheader header).trans (if_neg hleft_ne.symm)
  have hback : SameTags (links.hidden header) ((links.hidden header).shown header) :=
    sameTags_relaid hclosed' hheader'
  refine ext_get (hback.size_eq.trans hsame.size_eq) ?_ (counts_relaid.trans counts_relaid)
    (hback.numColumns_eq.trans hsame.numColumns_eq) (hback.numRows_eq.trans hsame.numRows_eq)
  intro id _
  rw [shown, get_relaid hclosed' hheader', hleft_same, hright_same, hidden,
    get_relaid hclosed hheader, right_relaid hclosed hheader, left_relaid hclosed hheader,
    redirect_back hleft, redirect_back hright]
  rfl

end Horizontal

end Links

end ExactCover
