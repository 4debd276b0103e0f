import ExactCover.Proofs.Attempt
import ExactCover.Proofs.First
import ExactCover.Proofs.Sudoku.Board
import ExactCover.Sudoku.Reduction
/-!
What becomes of a board. Its size is judged first, then its rows one after the other, of each its length
before its values. Of a puzzle that has been accepted, the exact cover form needs no more than that its
board is a square of its size and that no value is above that size.
-/

namespace ExactCover.Sudoku

def IsRow (n : Nat) (cells : List Nat) : Prop := cells.length = n ∧ ∀ value ∈ cells, value ≤ n

/-- What becomes of a board: a puzzle, or its first fault. -/
inductive BoardGives (board : Board) : Except SudokuError Sudoku → Prop
  | invalidSize : board.length ∉ [4, 9, 16, 25] →
      BoardGives board (.error (.invalidSize board.length))
  | raggedRow {size : Size} {row : Nat} {cells : List Nat} : size.toNat = board.length →
      IsFirst (¬ IsRow board.length ·) board.rows row cells → cells.length ≠ board.length →
      BoardGives board (.error (.raggedRow row board.length cells.length))
  | invalidValue {size : Size} {row col value : Nat} {cells : List Nat} :
      size.toNat = board.length → IsFirst (¬ IsRow board.length ·) board.rows row cells →
      cells.length = board.length → IsFirst (board.length < ·) cells col value →
      BoardGives board (.error (.invalidValue row col value))
  | accepted {size : Size} : size.toNat = board.length →
      (∀ cells ∈ board.rows, IsRow board.length cells) → BoardGives board (.ok { board, size })

/-- The board is a square of the puzzle's size with values up to it. -/
structure Checked (s : Sudoku) : Prop extends s.board.IsSquare s.size.toNat where
  value_le : ∀ cells ∈ s.board.rows, ∀ value ∈ cells, value ≤ s.size.toNat

section Board

variable {n row : Nat} {size : Size} {cells : List Nat} {rows : List (List Nat)} {board : Board}
  {error : SudokuError} {result : Except SudokuError Sudoku}

theorem Size.ofNat?_eq_some_iff : Size.ofNat? n = some size ↔ size.toNat = n := by
  constructor
  · intro h
    unfold Size.ofNat? at h
    split at h <;> cases h <;> rfl
  · rintro rfl
    exact size.ofNat?_toNat

theorem Size.ofNat?_eq_none_iff : Size.ofNat? n = none ↔ n ∉ [4, 9, 16, 25] := by
  unfold Size.ofNat?
  split <;> simp_all

theorem rowError?_eq_none_iff : rowError? n row cells = none ↔ IsRow n cells := by
  unfold rowError?
  split
  case isTrue hlength =>
    rw [findSome?_zipIdx_eq_none_iff (p := (n < ·)) (by simp)]
    simp [IsRow, hlength]
  case isFalse hlength => simp [IsRow, hlength]

theorem rowError?_eq_some_iff : rowError? n row cells = some error ↔
    (cells.length ≠ n ∧ error = .raggedRow row n cells.length) ∨
      (cells.length = n ∧ ∃ col value, IsFirst (n < ·) cells col value ∧
        error = .invalidValue row col value) := by
  unfold rowError?
  split
  case isTrue hlength =>
    rw [findSome?_zipIdx_eq_some_iff (p := (n < ·)) (by simp)]
    simp only [hlength, ne_eq, not_true, false_and, false_or, true_and]
    refine exists₂_congr fun col value => and_congr_right fun h => ?_
    simp [h.holds, eq_comm]
  case isFalse hlength => simp [hlength, eq_comm]

def firstError? (n : Nat) (rows : List (List Nat)) : Option SudokuError :=
  rows.zipIdx.findSome? fun (cells, row) => rowError? n row cells

theorem not_isRow_iff (cells : List Nat) (row : Nat) :
    rowError? n row cells = none ↔ ¬ ¬ IsRow n cells := by
  rw [rowError?_eq_none_iff, not_not]

theorem firstError?_eq_none_iff : firstError? n rows = none ↔ ∀ cells ∈ rows, IsRow n cells := by
  rw [firstError?, findSome?_zipIdx_eq_none_iff not_isRow_iff]
  simp only [not_not]

theorem firstError?_eq_some_iff : firstError? n rows = some error ↔
    ∃ row cells, IsFirst (¬ IsRow n ·) rows row cells ∧
      ((cells.length ≠ n ∧ error = .raggedRow row n cells.length) ∨
        (cells.length = n ∧ ∃ col value, IsFirst (n < ·) cells col value ∧
          error = .invalidValue row col value)) := by
  rw [firstError?, findSome?_zipIdx_eq_some_iff not_isRow_iff]
  simp only [Nat.zero_add, rowError?_eq_some_iff]

theorem ofBoard_of_size (hsize : size.toNat = board.length) : ofBoard board =
    match firstError? board.length board.rows with
    | some error => .error error
    | none => .ok { board, size } := by
  have hchecked : checkedSize board.length = .ok size := by
    rw [checkedSize, Size.ofNat?_eq_some_iff.2 hsize]
  rw [ofBoard, hchecked, ok_bind, hsize]
  rfl

theorem ofBoard_of_not_mem (hsize : board.length ∉ [4, 9, 16, 25]) :
    ofBoard board = .error (.invalidSize board.length) := by
  rw [ofBoard, checkedSize, Size.ofNat?_eq_none_iff.2 hsize, error_bind]

/-- A board is judged by its size, then by its first row that is none. -/
theorem ofBoard_eq_iff : ofBoard board = result ↔ BoardGives board result := by
  constructor
  · rintro rfl
    cases hsize : Size.ofNat? board.length with
    | none =>
      have hnot := Size.ofNat?_eq_none_iff.1 hsize
      rw [ofBoard_of_not_mem hnot]
      exact .invalidSize hnot
    | some size =>
      have hlength : size.toNat = board.length := Size.ofNat?_eq_some_iff.1 hsize
      rw [ofBoard_of_size hlength]
      cases hfirst : firstError? board.length board.rows with
      | none => exact .accepted hlength (firstError?_eq_none_iff.1 hfirst)
      | some error =>
        obtain ⟨row, cells, hrow, ⟨hne, rfl⟩ | ⟨heq, col, value, hvalue, rfl⟩⟩ :=
          firstError?_eq_some_iff.1 hfirst
        · exact .raggedRow hlength hrow hne
        · exact .invalidValue hlength hrow heq hvalue
  · intro h
    cases h with
    | invalidSize hsize => exact ofBoard_of_not_mem hsize
    | raggedRow hsize hrow hne =>
      rw [ofBoard_of_size hsize, firstError?_eq_some_iff.2 ⟨_, _, hrow, .inl ⟨hne, rfl⟩⟩]
    | invalidValue hsize hrow heq hvalue =>
      rw [ofBoard_of_size hsize,
        firstError?_eq_some_iff.2 ⟨_, _, hrow, .inr ⟨heq, _, _, hvalue, rfl⟩⟩]
    | accepted hsize hrows => rw [ofBoard_of_size hsize, firstError?_eq_none_iff.2 hrows]

/-- A board is accepted as it is, and only after its checks. -/
theorem checked_of_ofBoard {s : Sudoku} (h : ofBoard board = .ok s) : s.board = board ∧ s.Checked := by
  cases ofBoard_eq_iff.1 h with
  | accepted hsize hrows =>
    refine ⟨rfl, ⟨hsize.symm, fun cells hcells => ?_⟩, fun cells hcells => ?_⟩
    · exact (hrows cells hcells).1.trans hsize.symm
    · rw [hsize]
      exact (hrows cells hcells).2

end Board

namespace Checked

variable {s : Sudoku} {row col : Nat}

theorem cell_le (h : s.Checked) (row col : Nat) : s.board.cell row col ≤ s.size.toNat := by
  by_cases hempty : s.board.cell row col = 0
  · rw [hempty]
    exact Nat.zero_le _
  · obtain ⟨cells, hcells, hcell⟩ :=
      Board.cell?_eq_some_iff.1 (Board.cell?_of_cell_ne_zero hempty)
    exact h.value_le cells (List.mem_of_getElem? hcells) _ (List.mem_of_getElem? hcell)

theorem lt_of_given (h : s.Checked) (hgiven : s.board.cell row col ≠ 0) :
    row < s.size.toNat ∧ col < s.size.toNat :=
  h.lt_of_cell? (Board.cell?_of_cell_ne_zero hgiven)

end Checked

end ExactCover.Sudoku
